/-
# `Proofs.Listing.Scanned` — the listing of a scan

The listing of a scanned buffer can be written and read back, and gives back
the tokens and findings of the scan: nothing in it is larger than the buffer,
and a buffer that is not too long (`File.Sized`) has a listing whose numbers
fit into 32 bits.
-/
import LineLexer.Proofs.Listing.RoundTrip
import LineLexer.Proofs.Scan.Size

namespace LineLexer

/-- The content and the name of a buffer are not too long to be written. -/
structure File.Sized (f : File) : Prop where
  content_lt : f.content.length < Pack.sizeLimit
  name_lt : f.name.length < Pack.sizeLimit

/-! ## Places -/

section

variable {f : File} {l : Line} {pre post : Bytes}

/-- A buffer has at most as many lines as bytes. -/
theorem Line.StandsIn.num_le_length (h : l.StandsIn f.content pre post) :
    l.num ≤ f.content.length := by
  have hcount : pre.count File.feed ≤ pre.length := List.count_le_length
  have hrest : 0 < (l.text ++ post).length := by
    rcases h.closes with ⟨-, hne⟩ | ⟨q, rfl⟩
    · have := List.length_pos_iff.mpr hne
      rw [List.length_append]
      omega
    · simp
  rw [h.num_eq, h.split, List.length_append]
  omega

theorem Span.Inside.recordable {sp : Span} (hin : sp.Inside l)
    (h : l.StandsIn f.content pre post) (hf : f.Sized) : sp.Recordable := by
  have hle := hin.start_le
  have hstop := hin.stop_le
  have hend := h.end_le
  have hlt := hf.content_lt
  exact ⟨by omega, by omega⟩

end

/-! ## Tokens and findings -/

theorem Token.length_lexeme_le (t : Token) : t.lexeme.length ≤ t.source.length := by
  unfold source
  split
  · rw [List.length_append, List.length_append]
    omega
  · exact Nat.le_refl _

namespace File

variable {f : File}

theorem tokens_recordable (hf : f.Sized) {t : Token} (ht : t ∈ f.tokens) :
    t.Recordable ∧ t.lexeme.length < Pack.sizeLimit := by
  obtain ⟨l, hl, before, s, behind, hcut, hr⟩ := exists_cut (mem_tokens.mp ht)
  obtain ⟨hspelled, hclass⟩ := hcut.spelledBy hr
  obtain ⟨-, pre, post, hstands⟩ := standsIn_of_mem_lines hl
  have hnum := hstands.num_le_length
  have hend := hstands.end_le
  have hcount := Bytes.charCount_le_length l.text
  have hlt := hf.content_lt
  have hbody := List.length_pos_iff.mpr hspelled.body_ne
  have hchars := congrArg List.length hspelled.split
  have htext := Line.length_text hspelled.split
  have hlexeme := t.length_lexeme_le
  rw [List.flatMap_append, List.length_append] at htext
  rw [List.length_append, List.length_append] at hchars
  rw [Bytes.charCount] at hcount
  rw [hspelled.source_eq] at hlexeme
  refine ⟨⟨hclass.valid, ?_, ?_⟩, by omega⟩
  · rw [hspelled.coord_eq]
    exact Nat.lt_of_le_of_lt hnum hlt
  · rw [hspelled.coord_eq]
    dsimp only
    omega

theorem findings_recordable (hf : f.Sized) {d : Diagnostic} (hd : d ∈ f.findings) :
    d.Recordable ∧ (Listing.DiagnosticRecord.ofDiagnostic d).Sized := by
  obtain ⟨e, he, rfl⟩ := List.mem_map.mp hd
  obtain ⟨l, hl, before, s, behind, hcut, hr⟩ := exists_cut (mem_errors.mp he)
  obtain ⟨mid, bad, rest, -, hpoints⟩ := hcut.pointsAt hr
  obtain ⟨-, pre, post, hstands⟩ := standsIn_of_mem_lines hl
  have hshort := hcut.short hr
  have hmessage := hshort.message_le
  have hfixes := hshort.fixes_le
  constructor
  · refine ⟨hpoints.span_inside.recordable hstands hf, by simp [LexError.diagnostic], ?_⟩
    intro fix hfix edit hedit
    exact (hpoints.fixes_inside fix hfix edit hedit).recordable hstands hf
  · refine ⟨?_, ?_, by simp [Listing.DiagnosticRecord.ofDiagnostic, LexError.diagnostic], ?_, ?_⟩
    · exact Nat.lt_of_le_of_lt hmessage (by decide)
    · simp [Listing.DiagnosticRecord.ofDiagnostic, LexError.diagnostic]
    · rw [Listing.DiagnosticRecord.ofDiagnostic, LexError.diagnostic, List.length_map]
      exact Nat.lt_of_le_of_lt hfixes (by decide)
    · intro r hmem
      obtain ⟨fix, hfix, rfl⟩ := List.mem_map.mp hmem
      refine ⟨Nat.lt_of_le_of_lt (hshort.title_le fix hfix) (by decide), ?_, ?_⟩
      · rw [Listing.FixRecord.ofFix, List.length_map]
        exact Nat.lt_of_le_of_lt (hshort.edits_le fix hfix) (by decide)
      · intro r hmem
        obtain ⟨edit, hedit, rfl⟩ := List.mem_map.mp hmem
        exact Nat.lt_of_le_of_lt (hshort.text_le fix hfix edit hedit) (by decide)

/-- The listing of a complete scan. -/
def listing (f : File) : Listing := .ofScan f f.tokens f.findings

theorem listing_sized (hf : f.Sized) : f.listing.Sized := by
  have hlt := hf.content_lt
  refine ⟨hf.name_lt, ?_, ?_, ?_, ?_⟩
  · rw [listing, Listing.ofScan, List.length_map]
    exact Nat.lt_of_le_of_lt f.length_tokens_le hlt
  · intro r hr
    obtain ⟨t, ht, rfl⟩ := List.mem_map.mp hr
    exact (tokens_recordable hf ht).2
  · rw [listing, Listing.ofScan, List.length_map]
    exact Nat.lt_of_le_of_lt f.length_findings_le hlt
  · intro r hr
    obtain ⟨d, hd, rfl⟩ := List.mem_map.mp hr
    exact (findings_recordable hf hd).2

/-- **The listing of a scan survives being written**, and gives back the tokens
and, bound to any buffer, the findings. -/
theorem decode_listing (hf : f.Sized) (rest : Bytes) :
    Listing.decode (f.listing.encode ++ rest) = .ok f.listing ∧
      f.listing.tokenList = .ok f.tokens ∧
      ∀ file, f.listing.diagnosticList file = f.findings.map (·.inFile file) :=
  ⟨Listing.decode_encode (listing_sized hf) rfl rest,
    Listing.tokenList_ofScan f (fun _ ht => (tokens_recordable hf ht).1) _,
    Listing.diagnosticList_ofScan f _ fun _ hd => (findings_recordable hf hd).1⟩

end File

end LineLexer

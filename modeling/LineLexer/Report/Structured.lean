/-
# `Report.Structured` — findings for programs

A JSON object with the findings and their number.  Places are byte offsets
with the buffer's name, and line and column if wanted; what is empty or zero
is left out where a field is optional.
-/
import LineLexer.Report.Name
import LineLexer.Report.Preview
import LineLexer.Text.Json

namespace LineLexer.Report

end LineLexer.Report

/-!
# Colours of terminal text

A text is painted by the codes of a terminal. Without colours it is left as it is.
-/

namespace SourceAtlas.Report

/-- How a text is painted. -/
inductive Paint where
  | name
  | label
  | amount
  | warning
deriving Repr, DecidableEq, Inhabited

/-- The terminal's codes: bold cyan, dimmed, bold green and yellow. -/
def Paint.codes : Paint → String
  | name => "1;36"
  | label => "2"
  | amount => "1;32"
  | warning => "33"

/-- Paints a text if there are colours. -/
def Paint.apply (paint : Paint) (colored : Bool) (text : String) : String :=
  if colored then "\x1b[" ++ paint.codes ++ "m" ++ text ++ "\x1b[0m" else text

end SourceAtlas.Report

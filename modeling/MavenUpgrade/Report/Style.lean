/-!
# Terminal styles

A terminal shows a text in a style when it stands between the control sequence that switches the
style on and the one that switches all styles off. Inside a text that switches styles off by
itself the style is switched on again.
-/

namespace MavenUpgrade

/-- A way to show text on a terminal, by the numbers that switch it on. -/
structure Style where
  codes : String
  deriving DecidableEq, Repr

namespace Style

/-- Bold text. -/
def bold : Style := ⟨"1"⟩

/-- Faint text. -/
def dimmed : Style := ⟨"2"⟩

/-- Red text. -/
def red : Style := ⟨"31"⟩

/-- Green text. -/
def green : Style := ⟨"32"⟩

/-- Yellow text. -/
def yellow : Style := ⟨"33"⟩

/-- Cyan text. -/
def cyan : Style := ⟨"36"⟩

/-- Bold red text. -/
def boldRed : Style := ⟨"1;31"⟩

/-- Bold white text. -/
def boldWhite : Style := ⟨"1;97"⟩

/-- The control sequence that switches a style on. -/
def opening (s : Style) : List Char :=
  '\x1b' :: '[' :: s.codes.toList ++ ['m']

/-- The control sequence that switches all styles off. -/
def closing : List Char := ['\x1b', '[', '0', 'm']

/-- A text with a style switched on again wherever all are switched off. -/
def reopen (s : Style) : List Char → List Char
  | '\x1b' :: '[' :: '0' :: 'm' :: rest => closing ++ s.opening ++ reopen s rest
  | c :: rest => c :: reopen s rest
  | [] => []

/-- A text shown in a style, where colours are in use. -/
def paint (s : Style) (colored : Bool) (text : String) : String :=
  if colored then String.ofList (s.opening ++ s.reopen text.toList ++ closing) else text

end Style

end MavenUpgrade

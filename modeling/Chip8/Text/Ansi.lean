/-! # Styled terminal text

A style is the pair of control sequences that a terminal reads around a text: one switches the
style on, the other switches it off.
-/

namespace Chip8.Text

structure Style where
  on : String
  off : String

namespace Style

def escape : String := "\x1b["

/-- An instruction that is one. -/
def valid : Style := ⟨escape ++ "32m", escape ++ "0m"⟩

/-- A word that is no instruction. -/
def invalid : Style := ⟨escape ++ "31;1m", escape ++ "0m"⟩

/-- A message about a failure, in bold red. -/
def alarm : Style := ⟨escape ++ "31m" ++ escape ++ "1m", escape ++ "0m" ++ escape ++ "39m"⟩

/-- Text of less weight than its surroundings. -/
def faint : Style := ⟨escape ++ "90m", escape ++ "39m"⟩

def paint (style : Style) (text : String) : String := style.on ++ text ++ style.off

end Style

end Chip8.Text

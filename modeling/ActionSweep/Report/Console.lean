import ActionSweep.Report.Style

/-
What a run writes, on the two channels of a terminal.
-/

namespace ActionSweep

/-- The pieces written so far on either channel, last first, and whether styles are shown. -/
structure Console where
  styles : Bool
  output : List Text
  errors : List Text
deriving Repr, DecidableEq

namespace Console

def new (styles : Bool) : Console := ⟨styles, [], []⟩

/-- A text as this terminal shows it. -/
def shown (c : Console) (t : Text) : Text := if c.styles then t else t.unstyled

/-- Writes a text as it is. -/
def put (c : Console) (t : Text) : Console := { c with output := t :: c.output }

/-- Writes a line. -/
def say (c : Console) (t : Text) : Console := c.put (c.shown t ++ ['\n'])

/-- Writes lines. -/
def sayAll (c : Console) (ts : List Text) : Console := ts.foldl say c

/-- Writes a line on the channel for errors. -/
def warn (c : Console) (t : Text) : Console :=
  { c with errors := (c.shown t ++ ['\n']) :: c.errors }

/-- Everything written for output. -/
def outputText (c : Console) : Text := c.output.reverse.flatten

/-- Everything written for errors. -/
def errorText (c : Console) : Text := c.errors.reverse.flatten

end Console

end ActionSweep

import ShaderLoom.Text.Basic

/-!
# Lines

A line ends at a line feed, and one carriage return right before the line feed belongs to the
line end too. What follows the last line feed is a line of its own unless it is empty, so a
text that ends in a line feed has no empty last line.
-/

namespace ShaderLoom.Text

/-- A line without the carriage return that ends it. -/
def dropReturn (line : Text) : Text :=
  if line.getLast? = some '\r' then line.dropLast else line

/-- The lines of a text, without their ends. -/
def lines (t : Text) : List Text :=
  match _h : t.dropWhile (· != '\n') with
  | [] => if t = [] then [] else [t]
  | _ :: rest => dropReturn (t.takeWhile (· != '\n')) :: lines rest
termination_by t.length
decreasing_by
  have := length_dropWhile_le (· != '\n') t
  simp only [_h, List.length_cons] at this
  omega

@[simp] theorem lines_nil : lines [] = [] := by
  unfold lines
  rfl

end ShaderLoom.Text

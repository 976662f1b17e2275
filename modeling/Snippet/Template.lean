import Snippet.Text.Basic

/-!
# Templates

A template is a text with placeholders: a key between `$` and an opening brace, and the next
closing brace. Rendering reads the template once, from left to right, as a list of segments; what
is put in for a placeholder is never read again.
-/

namespace Snippet.Template

/-- A piece of a template. -/
inductive Segment where
  /-- Text that is kept. -/
  | literal (t : Text)
  /-- A place for the value of a key. -/
  | placeholder (key : Text)
  /-- The start of a placeholder that is never closed, with all that follows. -/
  | unclosed (t : Text)
  deriving DecidableEq, Repr

/-- What a placeholder starts with. -/
def opening : Text := ['$', '\x7b']

/-- What a placeholder ends with. -/
def closing : Text := ['\x7d']

/-- The segments of a template. -/
def segments (t : Text) : List Segment :=
  match h : Text.find? opening t with
  | none => [.literal t]
  | some (lit, after) =>
    have _ : after.length + 2 ≤ t.length := Text.length_add_le_of_find? h
    match h' : Text.find? closing after with
    | none => [.literal lit, .unclosed after]
    | some (key, rest) =>
      have _ : rest.length + 1 ≤ after.length := Text.length_add_le_of_find? h'
      .literal lit :: .placeholder key :: segments rest
termination_by t.length
decreasing_by omega

/-- What a segment is rendered as: a placeholder as the first value of its key, or as nothing. -/
def Segment.render (values : List (Text × Text)) : Segment → Text
  | .literal t => t
  | .placeholder key => (values.lookup key).getD []
  | .unclosed t => opening ++ t

/-- The template with its placeholders replaced by values. -/
def render (template : Text) (values : List (Text × Text)) : Text :=
  (segments template).flatMap (Segment.render values)

end Snippet.Template

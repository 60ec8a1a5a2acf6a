import PatternLowering.Text

/-!
# Message templates

A template marks the place of its `n`-th argument by the number `n` in braces. Arguments are put in
one after another, each into what the earlier ones left, so an argument that itself looks like a
later mark is filled in turn.
-/

namespace PatternLowering.Message

/-- What follows `mark` at the front of `text`, if it stands there. -/
def strip? : Text → Text → Option Text
  | [], text => some text
  | _ :: _, [] => none
  | m :: mark, c :: text => if m = c then strip? mark text else none

/-- Puts `value` in place of every `mark`, read from left to right. `skip` characters of a mark that
was just replaced are still to be passed over. -/
def replaceAfter (mark value : Text) (skip : Nat) : Text → Text
  | [] => []
  | c :: rest =>
    match skip with
    | skip + 1 => replaceAfter mark value skip rest
    | 0 =>
      if (strip? mark (c :: rest)).isSome then
        value ++ replaceAfter mark value (mark.length - 1) rest
      else c :: replaceAfter mark value 0 rest

/-- Puts `value` in place of every `mark`; the mark is not empty. -/
def replaceAll (mark value text : Text) : Text := replaceAfter mark value 0 text

def mark (index : Nat) : Text := ('{' :: (toString index).toList) ++ ['}']

def fillFrom (index : Nat) (text : Text) : List String → Text
  | [] => text
  | value :: values => fillFrom (index + 1) (replaceAll (mark index) value.toList text) values

def fill (template : String) (values : List String) : String :=
  String.ofList (fillFrom 0 template.toList values)

end PatternLowering.Message

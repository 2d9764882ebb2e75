import ShaderWeave.Scan.Token

set_option autoImplicit false

/-!
# Order rules

A chunk may ask for a place among the chunks that contribute to a stage: at the start, at the end, or
next to another chunk.

## Main definitions

* `ShaderWeave.OrderRule` — a rule.
* `ShaderWeave.OrderRule.parse?` — the rule that an argument denotes.
-/

namespace ShaderWeave

open Text

/-- **An order rule.** -/
inductive OrderRule where
  | first
  | last
  | before (target : String)
  | after (target : String)
  deriving DecidableEq, Repr

namespace OrderRule

/-- **The rule that an argument denotes.** The outer `none` says that the argument is not recognized,
the inner one that it is empty and asks for no place. Spaces around the argument and around the name
of a chunk do not count. -/
def parse? (arg : Text) : Option (Option OrderRule) :=
  let arg := trim arg
  if arg = [] then some none
  else if arg = "first".toList then some (some .first)
  else if arg = "last".toList then some (some .last)
  else match after? "before:".toList arg with
    | some target => some (some (.before (.ofList (trim target))))
    | none =>
      match after? "after:".toList arg with
      | some target => some (some (.after (.ofList (trim target))))
      | none => none

/-- The chunk next to which a rule asks for a place. -/
def target? : OrderRule → Option String
  | .before t => some t
  | .after t => some t
  | _ => none

/-- The word that a rule starts with. -/
def kind : OrderRule → String
  | .first => "first"
  | .last => "last"
  | .before _ => "before"
  | .after _ => "after"

/-- A rule as an argument. -/
def display (rule : OrderRule) : String :=
  match rule.target? with
  | some t => rule.kind ++ ":" ++ t
  | none => rule.kind

end OrderRule

end ShaderWeave

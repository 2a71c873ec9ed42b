import TranslationKeys.Text.Basic

/-!
# Traces

A trace lists the grammar rules that a reading enters, in order, with the depth
of each entry and the text that was left when it was entered.
-/

namespace TranslationKeys

inductive Rule where
  | expression
  | params
  | param
  deriving DecidableEq, Repr

def Rule.name : Rule -> Text
  | .expression => "expression".toList
  | .params => "params".toList
  | .param => "param".toList

structure RuleEntry where
  /-- Number of rules around the entry. -/
  depth : Nat
  rule : Rule
  /-- The text that was left at the entry. -/
  remainder : Text
  deriving DecidableEq, Repr

/-- An entry, indented by two spaces for each rule around it. -/
def RuleEntry.render (entry : RuleEntry) : Text :=
  Text.spaces (2 * entry.depth) ++ "Parsing ".toList ++ entry.rule.name ++
    " 【".toList ++ entry.remainder ++ "】".toList

end TranslationKeys

import TranslationKeys.Text.Basic

/-!
# Expressions

An expression is plain text or a call: a reference to a translation key,
perhaps with a block of named parameters.  The value of a parameter is a string
literal, kept as it is written, or another call.

Parameters keep the order in which they were given.  A name that is given again
loses its earlier entry and stands at the end.
-/

namespace TranslationKeys

mutual

/-- A reference to a translation key, without or with a block of parameters. -/
inductive Call where
  | bare (key : Text)
  | block (key : Text) (params : Params)
  deriving DecidableEq, Repr

/-- Named parameters in order. -/
inductive Params where
  | nil
  | cons (name : Text) (value : Value) (rest : Params)
  deriving DecidableEq, Repr

/-- The value of a parameter: a literal with its quotes and escapes, or a call. -/
inductive Value where
  | literal (raw : Text)
  | nested (call : Call)
  deriving DecidableEq, Repr

end

/-- An expression: text that stands for itself, or a call. -/
inductive Node where
  | literal (text : Text)
  | translate (call : Call)
  deriving DecidableEq, Repr

namespace Call

def key : Call -> Text
  | .bare key => key
  | .block key _ => key

def params? : Call -> Option Params
  | .bare _ => none
  | .block _ params => some params

end Call

namespace Params

/-! ## Entries -/

def toList : Params -> List (Text × Value)
  | .nil => []
  | .cons name value rest => (name, value) :: rest.toList

def size : Params -> Nat
  | .nil => 0
  | .cons _ _ rest => rest.size + 1

def isEmpty : Params -> Bool
  | .nil => true
  | .cons _ _ _ => false

def names (params : Params) : List Text :=
  params.toList.map Prod.fst

def find? (name : Text) : Params -> Option Value
  | .nil => none
  | .cons other value rest => if other = name then some value else rest.find? name

/-! ## Insertion -/

def push : Params -> Text -> Value -> Params
  | .nil, name, value => .cons name value .nil
  | .cons first v rest, name, value => .cons first v (rest.push name value)

/-- Take out the entry of a name: its value, if it has one, and the other entries. -/
def extract (name : Text) : Params -> Option Value × Params
  | .nil => (none, .nil)
  | .cons other value rest =>
      if other = name then
        (some value, rest)
      else
        let (found, remaining) := rest.extract name
        (found, .cons other value remaining)

/-- Give a name a value at the end: the value that it had before, and the new entries. -/
def exchange (params : Params) (name : Text) (value : Value) : Option Value × Params :=
  let (previous, remaining) := params.extract name
  (previous, remaining.push name value)

def insert (params : Params) (name : Text) (value : Value) : Params :=
  (params.exchange name value).2

def ofList (entries : List (Text × Value)) : Params :=
  entries.foldl (fun params (name, value) => params.insert name value) .nil

/-! ## Views of the operations -/

@[simp]
theorem length_toList (params : Params) : params.toList.length = params.size := by
  fun_induction size params <;> simp_all [toList]

@[simp]
theorem toList_push (params : Params) (name : Text) (value : Value) :
    (params.push name value).toList = params.toList ++ [(name, value)] := by
  fun_induction push params name value <;> simp_all [toList]

@[simp]
theorem extract_fst (name : Text) (params : Params) :
    (params.extract name).1 = params.find? name := by
  fun_induction extract name params <;> simp_all [find?]

/-- What remains is the list without the first entry of the name. -/
@[simp]
theorem toList_extract (name : Text) (params : Params) :
    (params.extract name).2.toList =
      params.toList.eraseP (fun entry => entry.1 = name) := by
  fun_induction extract name params <;> simp_all [toList]

@[simp]
theorem exchange_fst (params : Params) (name : Text) (value : Value) :
    (params.exchange name value).1 = params.find? name := by
  simp [exchange]

/-- Insertion drops the first entry of the name and appends the new one. -/
@[simp]
theorem toList_insert (params : Params) (name : Text) (value : Value) :
    (params.insert name value).toList =
      params.toList.eraseP (fun entry => entry.1 = name) ++ [(name, value)] := by
  simp [insert, exchange]

end Params

end TranslationKeys

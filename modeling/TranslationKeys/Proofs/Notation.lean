import TranslationKeys.Proofs.Lexemes

/-!
# The notation as a relation

The written forms of calls, blocks and values are derived by rules that do not
mention how a text is read.  A derivation says which text a form takes up and
which text comes after it, because a key without a block must not go on there.
-/

namespace TranslationKeys

open Lexeme

/-! ## Derivations -/

/-- A key may end in front of a text that neither extends it nor opens its block. -/
def EndsKey (rest : Text) : Prop :=
  forall c, rest.head? = some c -> isKeyChar c = false /\ c ≠ '{'

mutual

/--
The text `front`, with `rest` after it, is a written form of a call.  No more
than `free` of its blocks are open at once.
-/
inductive CallText : Nat -> Text -> Text -> Call -> Prop where
  | bare {free : Nat} {key rest : Text} (hkey : IsKey key) (hrest : EndsKey rest) :
      CallText free (marker ++ key) rest (.bare key)
  | block {free : Nat} {key body rest : Text} {entries : List (Text × Value)}
      (hkey : IsKey key) (hbody : BlockText free body rest entries) :
      CallText (free + 1) (marker ++ (key ++ '{' :: body)) rest
        (.block key (.ofList entries))

/--
The text `body`, with `rest` after it, is what an opening brace may be followed
by: entries in order, and the closing brace.
-/
inductive BlockText : Nat -> Text -> Text -> List (Text × Value) -> Prop where
  | close {free : Nat} {space rest : Text} (hspace : IsSpace space) :
      BlockText free (space ++ ['}']) rest []
  | entry {free : Nat} {space name header front separator body rest : Text}
      {value : Value} {entries : List (Text × Value)}
      (hspace : IsSpace space) (hheader : IsHeader name header)
      (hvalue : ValueText free front (separator ++ (body ++ rest)) value)
      (hseparator : IsSeparator separator)
      (hbody : BlockText free body rest entries) :
      BlockText free (space ++ (header ++ (front ++ (separator ++ body)))) rest
        ((name, value) :: entries)

/-- The text `front`, with `rest` after it, is a written form of a value. -/
inductive ValueText : Nat -> Text -> Text -> Value -> Prop where
  | literal {free : Nat} {raw rest : Text} (hraw : IsLiteral raw) :
      ValueText free raw rest (.literal raw)
  | nested {free : Nat} {front rest : Text} {call : Call}
      (hcall : CallText free front rest call) :
      ValueText free front rest (.nested call)

end

/-! ## The text after a form -/

theorem EndsKey.nil : EndsKey [] := by
  intro c hc
  cases hc

theorem EndsKey.brace (rest : Text) : EndsKey ('}' :: rest) := by
  intro c hc
  cases hc
  exact ⟨rfl, by decide⟩

theorem EndsKey.comma (rest : Text) : EndsKey (',' :: rest) := by
  intro c hc
  cases hc
  exact ⟨rfl, by decide⟩

theorem EndsKey.quote (rest : Text) : EndsKey ('\x22' :: rest) := by
  intro c hc
  cases hc
  exact ⟨rfl, by decide⟩

theorem EndsKey.append {front first second : Text} (hfirst : EndsKey (front ++ first))
    (hsecond : EndsKey second) : EndsKey (front ++ second) := by
  cases front with
  | nil => exact hsecond
  | cons c more => exact fun d hd => hfirst d hd

theorem BlockText.ne_nil {free : Nat} {body rest : Text} {entries : List (Text × Value)}
    (h : BlockText free body rest entries) : body ≠ [] := by
  cases h with
  | close => simp
  | entry _ hheader =>
      obtain ⟨c, more, _, rfl⟩ := hheader.eq_cons
      simp

theorem BlockText.endsKey_congr {free : Nat} {separator body first second : Text}
    {entries : List (Text × Value)} (h : BlockText free body first entries)
    (hfirst : EndsKey (separator ++ (body ++ first))) :
    EndsKey (separator ++ (body ++ second)) := by
  obtain ⟨c, more, rfl⟩ := List.exists_cons_of_ne_nil h.ne_nil
  cases separator with
  | nil => exact fun d hd => hfirst d hd
  | cons d rest => exact fun e he => hfirst e he

mutual

/-- A call keeps its written form when the text after it is changed to one where its key may end. -/
theorem CallText.change_rest {first second : Text} (hends : EndsKey first -> EndsKey second) :
    forall {free : Nat} {front : Text} {call : Call},
      CallText free front first call -> CallText free front second call
  | _, _, _, .bare hkey hfirst => .bare hkey (hends hfirst)
  | _, _, _, .block hkey hbody => .block hkey hbody.change_rest

/-- A block keeps its written form whatever comes after its closing brace. -/
theorem BlockText.change_rest {first second : Text} :
    forall {free : Nat} {body : Text} {entries : List (Text × Value)},
      BlockText free body first entries -> BlockText free body second entries
  | _, _, _, .close hspace => .close hspace
  | _, _, _, .entry hspace hheader hvalue hseparator hbody =>
      .entry hspace hheader (hvalue.change_rest hbody.endsKey_congr) hseparator
        hbody.change_rest

theorem ValueText.change_rest {first second : Text} (hends : EndsKey first -> EndsKey second) :
    forall {free : Nat} {front : Text} {value : Value},
      ValueText free front first value -> ValueText free front second value
  | _, _, _, .literal hraw => .literal hraw
  | _, _, _, .nested hcall => .nested (hcall.change_rest hends)

end

/-! ## More blocks than are needed -/

mutual

/-- A call keeps its written form where more blocks may be opened. -/
theorem CallText.mono :
    forall {free more : Nat} {front rest : Text} {call : Call},
      CallText free front rest call -> free <= more -> CallText more front rest call
  | _, _, _, _, _, .bare hkey hrest => fun _ => .bare hkey hrest
  | _, 0, _, _, _, .block _ _ => fun hmore => absurd hmore (Nat.not_succ_le_zero _)
  | _, _ + 1, _, _, _, .block hkey hbody => fun hmore =>
      .block hkey (hbody.mono (Nat.le_of_succ_le_succ hmore))

theorem BlockText.mono :
    forall {free more : Nat} {body rest : Text} {entries : List (Text × Value)},
      BlockText free body rest entries -> free <= more -> BlockText more body rest entries
  | _, _, _, _, _, .close hspace => fun _ => .close hspace
  | _, _, _, _, _, .entry hspace hheader hvalue hseparator hbody => fun hmore =>
      .entry hspace hheader (hvalue.mono hmore) hseparator (hbody.mono hmore)

theorem ValueText.mono :
    forall {free more : Nat} {front rest : Text} {value : Value},
      ValueText free front rest value -> free <= more -> ValueText more front rest value
  | _, _, _, _, _, .literal hraw => fun _ => .literal hraw
  | _, _, _, _, _, .nested hcall => fun hmore => .nested (hcall.mono hmore)

end

/-! ## The key of a form -/

theorem callKey?_of_bare {key rest : Text} (hkey : IsKey key) (hrest : EndsKey rest) :
    callKey? (marker ++ key ++ rest) = some (key, rest) :=
  callKey?_eq_some_iff.2 ⟨by simp, hkey, fun c hc => (hrest c hc).1⟩

theorem callKey?_of_block (inner : Text) {key : Text} (hkey : IsKey key) :
    callKey? (marker ++ (key ++ '{' :: inner)) = some (key, '{' :: inner) := by
  refine callKey?_eq_some_iff.2 ⟨rfl, hkey, ?_⟩
  intro c hc
  cases hc
  rfl

/-! ## Entries in order -/

/-- The parameters after a sequence of entries is inserted. -/
def Params.insertAll (params : Params) (entries : List (Text × Value)) : Params :=
  entries.foldl (fun params entry => params.insert entry.1 entry.2) params

theorem Params.insertAll_nil_params (entries : List (Text × Value)) :
    Params.nil.insertAll entries = .ofList entries :=
  rfl

@[simp]
theorem Params.insertAll_nil (params : Params) : params.insertAll [] = params :=
  rfl

@[simp]
theorem Params.insertAll_cons (params : Params) (name : Text) (value : Value)
    (entries : List (Text × Value)) :
    params.insertAll ((name, value) :: entries) =
      (params.insert name value).insertAll entries :=
  rfl

/-- Each entry takes up at least one character of a body, and so does its brace. -/
theorem BlockText.length_lt {free : Nat} {rest : Text} :
    forall {body : Text} {entries : List (Text × Value)},
      BlockText free body rest entries -> entries.length < body.length := by
  intro body entries h
  induction entries generalizing body with
  | nil => exact List.length_pos_iff.2 h.ne_nil
  | cons entry entries ih =>
      cases h with
      | entry _ hheader _ _ hbody =>
          obtain ⟨c, more, _, rfl⟩ := hheader.eq_cons
          have hlt := ih hbody
          simp only [List.length_append, List.length_cons]
          omega

end TranslationKeys

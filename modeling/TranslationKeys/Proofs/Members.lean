import TranslationKeys.Proofs.Settings

/-!
# Members of an object

An object is decoded from left to right, and each known field must be new.  What
comes out are the fields that its members fill, at most one for each of the three
names, and unknown members fill none.
-/

namespace TranslationKeys.Config

open RawJson
open Decoder
open Lexeme (Avoids)

variable {α : Type} {rule : KeyRule} {text rest : Text}

/-! ## Members in order -/

/-- What a member makes of the fields.  A known field must be new, and its value have a meaning. -/
def Fields.Adds (fields : Fields) (name : Text) (value : RawJson) (next : Fields) : Prop :=
  if name = "format".toList then
    fields.format = none /\ exists format, MeansFormat value format /\
      next = { fields with format := some format }
  else if name = "trace".toList then
    fields.trace = none /\ exists trace, MeansBoolean value trace /\
      next = { fields with trace := some trace }
  else if name = "denyTrailing".toList then
    fields.denyTrailing = none /\ exists denyTrailing, MeansBoolean value denyTrailing /\
      next = { fields with denyTrailing := some denyTrailing }
  else
    next = fields

/-- What members make of the fields one after the other. -/
def Fields.AddsAll : Fields -> List (Text × RawJson) -> Fields -> Prop
  | fields, [], last => last = fields
  | fields, (key, value) :: members, last =>
      exists name next, Unescapes key name /\ fields.Adds name value next /\
        next.AddsAll members last

theorem checkNew_ok_iff {name : Text} {old : Option α} {result : Unit} :
    checkNew name old text = .ok (result, rest) <-> old = none /\ text = rest := by
  cases old with
  | none => simp [checkNew, pure_ok_iff]
  | some value => simp [checkNew, throw_ok_iff]

/-- A known field is new, and behind its colon stands a document that has a meaning. -/
theorem knownField_ok_iff {item : Decoder α} {means : RawJson -> α -> Prop}
    (hitem : Takes item means) {name : Text} {old : Option α} {update : α -> Fields}
    {next : Fields} :
    (do
      checkNew name old
      expectToken ':'
      let value <- item
      return update value : Decoder Fields) text = .ok (next, rest) <->
    exists after document, IsBlank text (':' :: after) /\ Begins document after rest /\
      old = none /\ exists value, means document value /\ next = update value := by
  have hcolon : isJsonSpace ':' = false := rfl
  simp only [bind_ok_iff, checkNew_ok_iff, expectToken_ok_iff hcolon, hitem _ _ _, pure_ok_iff]
  constructor
  · rintro ⟨_, _, ⟨hold, rfl⟩, _, after, hmark, value, _, ⟨document, hbegins, hmeans⟩, rfl, rfl⟩
    exact ⟨after, document, hmark, hbegins, hold, value, hmeans, rfl⟩
  · rintro ⟨after, document, hmark, hbegins, hold, value, hmeans, rfl⟩
    exact ⟨(), text, ⟨hold, rfl⟩, (), after, hmark, value, rest, ⟨document, hbegins, hmeans⟩,
      rfl, rfl⟩

/-- An unknown field is skipped with any value. -/
theorem unknownField_ok_iff (hrest : Avoids continuesNumber rest) {fields next : Fields} :
    (do
      expectToken ':'
      skipValue
      return fields : Decoder Fields) text = .ok (next, rest) <->
    exists after document, IsBlank text (':' :: after) /\ Begins document after rest /\
      next = fields := by
  have hcolon : isJsonSpace ':' = false := rfl
  simp only [bind_ok_iff, expectToken_ok_iff hcolon, pure_ok_iff]
  constructor
  · rintro ⟨_, after, hmark, _, _, hskip, rfl, rfl⟩
    obtain ⟨document, hbegins⟩ := (skipValue_ok_iff hrest).1 hskip
    exact ⟨after, document, hmark, hbegins, rfl⟩
  · rintro ⟨after, document, hmark, hbegins, rfl⟩
    exact ⟨(), after, hmark, (), rest, (skipValue_ok_iff hrest).2 ⟨document, hbegins⟩, rfl, rfl⟩

/-- The part of a field behind its name. -/
def decodeNamed (rule : KeyRule) (fields : Fields) (name : Text) : Decoder Fields := do
  if name == "format".toList then
    checkNew name fields.format
    expectToken ':'
    let format <- decodeFormat rule
    return { fields with format := some format }
  else if name == "trace".toList then
    checkNew name fields.trace
    expectToken ':'
    let trace <- decodeBoolean
    return { fields with trace := some trace }
  else if name == "denyTrailing".toList then
    checkNew name fields.denyTrailing
    expectToken ':'
    let denyTrailing <- decodeBoolean
    return { fields with denyTrailing := some denyTrailing }
  else
    expectToken ':'
    skipValue
    return fields

theorem decodeField_eq (rule : KeyRule) (fields : Fields) :
    decodeField rule fields = keptString >>= decodeNamed rule fields :=
  rfl

theorem decodeNamed_ok_iff (hrest : Avoids continuesNumber rest) {fields next : Fields}
    {name : Text} :
    decodeNamed rule fields name text = .ok (next, rest) <->
      exists after value, IsBlank text (':' :: after) /\ Begins value after rest /\
        fields.Adds name value next := by
  unfold decodeNamed Fields.Adds
  by_cases hformat : name = "format".toList
  · rw [if_pos (beq_iff_eq.2 hformat), knownField_ok_iff decodeFormat_takes]
    simp only [if_pos hformat]
  · rw [if_neg (mt beq_iff_eq.1 hformat)]
    simp only [if_neg hformat]
    by_cases htrace : name = "trace".toList
    · rw [if_pos (beq_iff_eq.2 htrace), knownField_ok_iff decodeBoolean_takes]
      simp only [if_pos htrace]
    · rw [if_neg (mt beq_iff_eq.1 htrace)]
      simp only [if_neg htrace]
      by_cases hdeny : name = "denyTrailing".toList
      · rw [if_pos (beq_iff_eq.2 hdeny), knownField_ok_iff decodeBoolean_takes]
        simp only [if_pos hdeny]
      · rw [if_neg (mt beq_iff_eq.1 hdeny), unknownField_ok_iff hrest]
        simp only [if_neg hdeny]

theorem decodeField_ok_iff (hrest : Avoids continuesNumber rest) {fields next : Fields} :
    decodeField rule fields text = .ok (next, rest) <->
      exists key name behind after value, Unescapes key name /\
        text = key ++ '\x22' :: behind /\ IsBlank behind (':' :: after) /\
        Begins value after rest /\ fields.Adds name value next := by
  rw [decodeField_eq, bind_ok_iff]
  simp only [keptString_ok_iff, decodeNamed_ok_iff hrest]
  constructor
  · rintro ⟨name, behind, ⟨key, hkey, rfl⟩, after, value, hmark, hbegins, hadds⟩
    exact ⟨key, name, behind, after, value, hkey, rfl, hmark, hbegins, hadds⟩
  · rintro ⟨key, name, behind, after, value, hkey, rfl, hmark, hbegins, hadds⟩
    exact ⟨name, behind, ⟨key, hkey, rfl⟩, after, value, hmark, hbegins, hadds⟩

/-! ## Whole objects -/

/-- The text behind a field that more fields follow does not go on with a number. -/
theorem ends_of_decodeFields {bound : Text} {fields last : Fields}
    (h : decodeFields rule bound fields text = .ok (last, rest)) : Avoids continuesNumber text := by
  cases bound with
  | nil => exact (throw_ok_iff.1 h).elim
  | cons _ bound =>
      obtain ⟨c, after, htoken, hnext⟩ := bind_ok_iff.1 h
      obtain ⟨hblank, -⟩ := takeToken_ok_iff.1 htoken
      split at hnext
      · rename_i hc
        rw [beq_iff_eq.1 hc] at hblank
        exact ends_of_isBlank (by decide) hblank
      · split at hnext
        · rename_i hc
          rw [beq_iff_eq.1 hc] at hblank
          exact ends_of_isBlank (by decide) hblank
        · exact (throw_ok_iff.1 hnext).elim

/-- A quote and the field behind it are a member. -/
theorem decodeMember_ok_iff (hrest : Avoids continuesNumber rest) {fields next : Fields} :
    (expectToken '\x22' >>= fun _ => decodeField rule fields) text = .ok (next, rest) <->
      exists key name after value, IsKey key text after /\ Begins value after rest /\
        Unescapes key name /\ fields.Adds name value next := by
  simp only [bind_ok_iff, expectToken_ok_iff (show isJsonSpace '\x22' = false from rfl),
    decodeField_ok_iff hrest]
  constructor
  · rintro ⟨_, _, hquote, key, name, behind, after, value, hkey, rfl, hmark, hbegins, hadds⟩
    exact ⟨key, name, after, value, ⟨behind, hkey.isBody, hquote, hmark⟩, hbegins, hkey, hadds⟩
  · rintro ⟨key, name, after, value, ⟨behind, -, hquote, hmark⟩, hbegins, hkey, hadds⟩
    exact ⟨(), _, hquote, key, name, behind, after, value, hkey, rfl, hmark, hbegins, hadds⟩

theorem decodeFields_cons (rule : KeyRule) (c : Char) (bound : Text) (fields : Fields) :
    decodeFields rule (c :: bound) fields = (do
      let mark <- takeToken
      if mark == '}' then return fields
      else if mark == ',' then
        let next <- expectToken '\x22' >>= fun _ => decodeField rule fields
        decodeFields rule bound next
      else throw .malformed) := by
  simp only [decodeFields, bind_assoc]

theorem decodeFields_ok_iff {bound : Text} (hbound : text.length <= bound.length)
    {fields last : Fields} :
    decodeFields rule bound fields text = .ok (last, rest) <->
      exists members, AreMoreMembers members text rest /\ fields.AddsAll members last := by
  induction bound generalizing text fields with
  | nil =>
      have hnil : text = [] := List.eq_nil_of_length_eq_zero (Nat.le_zero.1 hbound)
      subst hnil
      constructor
      · intro h
        exact (throw_ok_iff.1 h).elim
      · rintro ⟨members, hend | hcomma, -⟩
        · exact absurd rfl hend.ne_nil
        · exact absurd rfl hcomma.ne_nil
  | cons c bound ih =>
      rw [decodeFields_cons]
      constructor
      · intro h
        obtain ⟨mark, after, htoken, hnext⟩ := bind_ok_iff.1 h
        obtain ⟨hblank, -⟩ := takeToken_ok_iff.1 htoken
        split at hnext
        · rename_i hmark
          obtain ⟨rfl, rfl⟩ := pure_ok_iff.1 hnext
          rw [beq_iff_eq.1 hmark] at hblank
          exact ⟨[], .close hblank, rfl⟩
        · split at hnext
          · rename_i hmark
            obtain ⟨next, between, hmember, hmore⟩ := bind_ok_iff.1 hnext
            rw [beq_iff_eq.1 hmark] at hblank
            obtain ⟨key, name, behind, value, hkey, hbegins, hname, hadds⟩ :=
              (decodeMember_ok_iff (ends_of_decodeFields hmore)).1 hmember
            have hlength : between.length <= bound.length := by
              have hsuffix := hbegins.isSuffix.trans hkey.isSuffix
              have hbefore := hblank.isSuffix.length_le
              have hbetween := hsuffix.length_le
              simp only [List.length_cons] at hbefore hbound
              omega
            obtain ⟨members, hmembers, hall⟩ := (ih hlength).1 hmore
            obtain ⟨first, hfirst, hvalue⟩ := hbegins
            exact ⟨(key, value) :: members, .comma hblank hkey hfirst hvalue hmembers,
              name, next, hname, hadds, hall⟩
          · exact (throw_ok_iff.1 hnext).elim
      · rintro ⟨members, hend | @⟨_, after, behind, start, between, _, key, value, members,
          hcomma, hkey, hblank, hvalue, hmembers⟩, hall⟩
        · exact bind_ok_iff.2 ⟨'}', rest, takeToken_ok_iff.2 ⟨hend, rfl⟩, hall ▸ rfl⟩
        · obtain ⟨name, next, hname, hadds, hall⟩ := hall
          have hmember : (expectToken '\x22' >>= fun _ => decodeField rule fields) after =
              .ok (next, between) := (decodeMember_ok_iff hmembers.ends).2
            ⟨key, name, behind, value, hkey, ⟨start, hblank, hvalue⟩, hname, hadds⟩
          have hlength : between.length <= bound.length := by
            have hsuffix := hvalue.isSuffix.trans (hblank.isSuffix.trans hkey.isSuffix)
            have hbefore := hcomma.isSuffix.length_le
            have hbetween := hsuffix.length_le
            simp only [List.length_cons] at hbefore hbound
            omega
          exact bind_ok_iff.2 ⟨',', after, takeToken_ok_iff.2 ⟨hcomma, rfl⟩,
            bind_ok_iff.2 ⟨next, between, hmember, (ih hlength).2 ⟨members, hmembers, hall⟩⟩⟩

theorem decodeMore_ok_iff {fields last : Fields} :
    decodeMore rule fields text = .ok (last, rest) <->
      exists members, AreMoreMembers members text rest /\ fields.AddsAll members last :=
  decodeFields_ok_iff (Nat.le_refl _)

/-- An object after its opening brace. -/
theorem decodeObject_ok_iff {config : Config} :
    decodeObject rule text = .ok (config, rest) <->
      exists members fields, IsValue (.object members) ('{' :: text) rest /\
        Fields.empty.AddsAll members fields /\ config = fields.toConfig := by
  constructor
  · intro h
    obtain ⟨c, after, htoken, hnext⟩ := bind_ok_iff.1 h
    obtain ⟨hblank, -⟩ := takeToken_ok_iff.1 htoken
    split at hnext
    · rename_i hc
      obtain ⟨rfl, rfl⟩ := pure_ok_iff.1 hnext
      rw [beq_iff_eq.1 hc] at hblank
      exact ⟨[], .empty, .emptyObject hblank, rfl, rfl⟩
    · split at hnext
      · rename_i hc
        obtain ⟨first, between, hfield, hnext⟩ := bind_ok_iff.1 hnext
        obtain ⟨fields, _, hmore, hend⟩ := bind_ok_iff.1 hnext
        obtain ⟨rfl, rfl⟩ := pure_ok_iff.1 hend
        obtain ⟨members, hmembers, hall⟩ := decodeMore_ok_iff.1 hmore
        obtain ⟨key, name, behind, colon, value, hkey, rfl, hmark, ⟨start, hstart, hvalue⟩,
          hadds⟩ := (decodeField_ok_iff hmembers.ends).1 hfield
        rw [beq_iff_eq.1 hc] at hblank
        exact ⟨(key, value) :: members, fields,
          .object ⟨behind, hkey.isBody, hblank, hmark⟩ hstart hvalue hmembers,
          ⟨name, first, hkey, hadds, hall⟩, rfl⟩
      · exact (throw_ok_iff.1 hnext).elim
  · rintro ⟨members, fields, hvalue, hall, rfl⟩
    cases hvalue with
    | emptyObject hend =>
        cases hall
        exact bind_ok_iff.2 ⟨'}', rest, takeToken_ok_iff.2 ⟨hend, rfl⟩, rfl⟩
    | object hkey hblank hvalue hmembers =>
        obtain ⟨name, first, hname, hadds, hall⟩ := hall
        obtain ⟨behind, -, hquote, hmark⟩ := hkey
        have hfield : decodeField rule .empty _ = .ok (first, _) :=
          (decodeField_ok_iff hmembers.ends).2
            ⟨_, name, behind, _, _, hname, rfl, hmark, ⟨_, hblank, hvalue⟩, hadds⟩
        exact bind_ok_iff.2 ⟨'\x22', _, takeToken_ok_iff.2 ⟨hquote, rfl⟩,
          bind_ok_iff.2 ⟨first, _, hfield, bind_ok_iff.2 ⟨fields, rest,
            decodeMore_ok_iff.2 ⟨_, hmembers, hall⟩, rfl⟩⟩⟩

/-! ## One member for each setting -/

/-- What the members of one name make of a field: at most one sets it, and none if it is set. -/
def FillsField (means : RawJson -> α -> Prop) (name : Text) :
    Option α -> List (Text × RawJson) -> Option α -> Prop
  | old, [], last => last = old
  | old, (key, value) :: members, last =>
      (Unescapes key name /\ old = none /\ exists found, means value found /\
        FillsField means name (some found) members last) \/
      (¬ Unescapes key name /\ FillsField means name old members last)

section FillsField

variable {means : RawJson -> α -> Prop} {name : Text} {members : List (Text × RawJson)}

theorem fillsField_some_iff {value : α} {last : Option α} :
    FillsField means name (some value) members last <->
      last = some value /\ ∀ member ∈ members, ¬ Unescapes member.1 name := by
  induction members with
  | nil => simp [FillsField]
  | cons member members ih =>
      obtain ⟨key, document⟩ := member
      simp only [FillsField, ih, List.forall_mem_cons, reduceCtorEq, false_and, and_false, false_or]
      exact and_left_comm

theorem finds_cons_of_named {key : Text} {value : RawJson} {found : Option RawJson}
    (hkey : Unescapes key name) :
    Finds ((key, value) :: members) name found <->
      found = some value /\ ∀ member ∈ members, ¬ Unescapes member.1 name := by
  constructor
  · intro h
    cases found with
    | none => exact absurd hkey (h _ List.mem_cons_self)
    | some other =>
        obtain ⟨before, otherKey, after, hmembers, hother, hunnamed⟩ := h
        cases before with
        | nil =>
            cases hmembers
            exact ⟨rfl, hunnamed⟩
        | cons first before =>
            cases hmembers
            exact absurd hkey (hunnamed _ List.mem_cons_self)
  · rintro ⟨rfl, hunnamed⟩
    exact ⟨[], key, members, rfl, hkey, hunnamed⟩

theorem finds_cons_of_other {key : Text} {value : RawJson} {found : Option RawJson}
    (hkey : ¬ Unescapes key name) :
    Finds ((key, value) :: members) name found <-> Finds members name found := by
  cases found with
  | none =>
      rw [Finds, Finds, List.forall_mem_cons]
      exact and_iff_right hkey
  | some other =>
      constructor
      · rintro ⟨before, otherKey, after, hmembers, hother, hunnamed⟩
        cases before with
        | nil =>
            cases hmembers
            exact absurd hother hkey
        | cons first before =>
            cases hmembers
            exact ⟨before, otherKey, after, rfl, hother, (List.forall_mem_cons.1 hunnamed).2⟩
      · rintro ⟨before, otherKey, after, rfl, hother, hunnamed⟩
        exact ⟨(key, value) :: before, otherKey, after, rfl, hother,
          List.forall_mem_cons.2 ⟨hkey, hunnamed⟩⟩

/-- The members fill a field exactly with the meaning of the only one of its name. -/
theorem fillsField_none_iff {last : Option α} :
    FillsField means name none members last <->
      exists found, Finds members name found /\ Option.Rel means found last := by
  induction members with
  | nil =>
      constructor
      · rintro rfl
        exact ⟨none, nofun, .none⟩
      · rintro ⟨found, hfound, hrel⟩
        cases hrel with
        | none => rfl
        | some hmeans =>
            obtain ⟨before, key, after, hmembers, -⟩ := hfound
            cases before <;> cases hmembers
  | cons member members ih =>
      obtain ⟨key, value⟩ := member
      by_cases hkey : Unescapes key name
      · simp only [FillsField, hkey, true_and, not_true_eq_false, false_and, or_false,
          fillsField_some_iff, finds_cons_of_named hkey]
        constructor
        · rintro ⟨result, hmeans, rfl, hunnamed⟩
          exact ⟨some value, ⟨rfl, hunnamed⟩, .some hmeans⟩
        · rintro ⟨_, ⟨rfl, hunnamed⟩, hrel⟩
          cases hrel with
          | some hmeans => exact ⟨_, hmeans, rfl, hunnamed⟩
      · simp only [FillsField, hkey, false_and, not_false_eq_true, true_and, false_or, ih,
          finds_cons_of_other hkey]

end FillsField

/-- What a member makes of one field: it sets the field if it has its name. -/
def SetsField (means : RawJson -> α -> Prop) (wanted name : Text) (value : RawJson)
    (old new : Option α) : Prop :=
  if name = wanted then old = none /\ exists found, means value found /\ new = some found
  else new = old

/-- What a member makes of all fields is what it makes of each of them. -/
theorem adds_iff {fields next : Fields} {name : Text} {value : RawJson} :
    fields.Adds name value next <->
      SetsField MeansFormat "format".toList name value fields.format next.format /\
        SetsField MeansBoolean "trace".toList name value fields.trace next.trace /\
        SetsField MeansBoolean "denyTrailing".toList name value fields.denyTrailing
          next.denyTrailing := by
  obtain ⟨format, trace, denyTrailing⟩ := next
  unfold Fields.Adds SetsField
  by_cases hformat : name = "format".toList
  · have htrace : name ≠ "trace".toList := by rw [hformat]; decide
    have hdeny : name ≠ "denyTrailing".toList := by rw [hformat]; decide
    simp only [if_pos hformat, if_neg htrace, if_neg hdeny, Fields.mk.injEq]
    constructor
    · rintro ⟨hold, found, hmeans, rfl, rfl, rfl⟩
      exact ⟨⟨hold, found, hmeans, rfl⟩, rfl, rfl⟩
    · rintro ⟨⟨hold, found, hmeans, rfl⟩, rfl, rfl⟩
      exact ⟨hold, found, hmeans, rfl, rfl, rfl⟩
  · by_cases htrace : name = "trace".toList
    · have hdeny : name ≠ "denyTrailing".toList := by rw [htrace]; decide
      simp only [if_neg hformat, if_pos htrace, if_neg hdeny, Fields.mk.injEq]
      constructor
      · rintro ⟨hold, found, hmeans, rfl, rfl, rfl⟩
        exact ⟨rfl, ⟨hold, found, hmeans, rfl⟩, rfl⟩
      · rintro ⟨rfl, ⟨hold, found, hmeans, rfl⟩, rfl⟩
        exact ⟨hold, found, hmeans, rfl, rfl, rfl⟩
    · by_cases hdeny : name = "denyTrailing".toList
      · simp only [if_neg hformat, if_neg htrace, if_pos hdeny, Fields.mk.injEq]
        constructor
        · rintro ⟨hold, found, hmeans, rfl, rfl, rfl⟩
          exact ⟨rfl, rfl, hold, found, hmeans, rfl⟩
        · rintro ⟨rfl, rfl, hold, found, hmeans, rfl⟩
          exact ⟨hold, found, hmeans, rfl, rfl, rfl⟩
      · obtain ⟨oldFormat, oldTrace, oldDeny⟩ := fields
        simp only [if_neg hformat, if_neg htrace, if_neg hdeny, Fields.mk.injEq]

theorem fillsField_cons_iff {means : RawJson -> α -> Prop} {old last : Option α}
    {members : List (Text × RawJson)} {key name wanted : Text} {value : RawJson}
    (hname : Unescapes key name) :
    FillsField means wanted old ((key, value) :: members) last <->
      exists new, SetsField means wanted name value old new /\
        FillsField means wanted new members last := by
  have hkey : Unescapes key wanted <-> name = wanted := by
    constructor
    · exact hname.unique
    · rintro rfl
      exact hname
  rw [FillsField, hkey]
  unfold SetsField
  split
  · rename_i hwanted
    simp only [hwanted, not_true_eq_false, false_and, or_false, true_and]
    constructor
    · rintro ⟨hold, found, hmeans, hfills⟩
      exact ⟨some found, ⟨hold, found, hmeans, rfl⟩, hfills⟩
    · rintro ⟨_, ⟨hold, found, hmeans, rfl⟩, hfills⟩
      exact ⟨hold, found, hmeans, hfills⟩
  · rename_i hwanted
    simp only [hwanted, false_and, not_false_eq_true, true_and, false_or, exists_eq_left]

theorem addsAll_iff {fields last : Fields} {members : List (Text × RawJson)} :
    fields.AddsAll members last <->
      KeysUnescape (.object members) /\
        FillsField MeansFormat "format".toList fields.format members last.format /\
        FillsField MeansBoolean "trace".toList fields.trace members last.trace /\
        FillsField MeansBoolean "denyTrailing".toList fields.denyTrailing members
          last.denyTrailing := by
  induction members generalizing fields with
  | nil =>
      obtain ⟨format, trace, denyTrailing⟩ := fields
      obtain ⟨lastFormat, lastTrace, lastDenyTrailing⟩ := last
      simp [Fields.AddsAll, FillsField, KeysUnescape]
  | cons member members ih =>
      obtain ⟨key, value⟩ := member
      have hkeys : KeysUnescape (.object ((key, value) :: members)) <->
          (exists name, Unescapes key name) /\ KeysUnescape (.object members) :=
        List.forall_mem_cons
      rw [hkeys]
      constructor
      · rintro ⟨name, next, hname, hadds, hall⟩
        obtain ⟨hformat, htrace, hdeny⟩ := adds_iff.1 hadds
        obtain ⟨hrest, hformats, htraces, hdenies⟩ := ih.1 hall
        exact ⟨⟨⟨name, hname⟩, hrest⟩, (fillsField_cons_iff hname).2 ⟨_, hformat, hformats⟩,
          (fillsField_cons_iff hname).2 ⟨_, htrace, htraces⟩,
          (fillsField_cons_iff hname).2 ⟨_, hdeny, hdenies⟩⟩
      · rintro ⟨⟨⟨name, hname⟩, hrest⟩, hformats, htraces, hdenies⟩
        obtain ⟨format, hformat, hformats⟩ := (fillsField_cons_iff hname).1 hformats
        obtain ⟨trace, htrace, htraces⟩ := (fillsField_cons_iff hname).1 htraces
        obtain ⟨denyTrailing, hdeny, hdenies⟩ := (fillsField_cons_iff hname).1 hdenies
        exact ⟨name, ⟨format, trace, denyTrailing⟩, hname,
          adds_iff.2 ⟨hformat, htrace, hdeny⟩, ih.2 ⟨hrest, hformats, htraces, hdenies⟩⟩

theorem describes_object_iff {members : List (Text × RawJson)} {config : Config} :
    (exists fields, Fields.empty.AddsAll members fields /\ config = fields.toConfig) <->
      KeysUnescape (.object members) /\ Describes (.object members) config := by
  simp only [addsAll_iff, Fields.empty, fillsField_none_iff]
  constructor
  · rintro ⟨fields, ⟨hkeys, ⟨format, hformat, hrel⟩, ⟨trace, htrace, hrel'⟩,
      ⟨denyTrailing, hdeny, hrel''⟩⟩, hconfig⟩
    exact ⟨hkeys, .object hformat htrace hdeny
      (sets_iff.2 ⟨fields, ⟨hrel, hrel', hrel''⟩, hconfig⟩)⟩
  · rintro ⟨hkeys, hdescribes⟩
    cases hdescribes with
    | object hformat htrace hdeny hsets =>
        obtain ⟨fields, hreads, hconfig⟩ := sets_iff.1 hsets
        exact ⟨fields, ⟨hkeys, ⟨_, hformat, hreads.format⟩, ⟨_, htrace, hreads.trace⟩,
          ⟨_, hdeny, hreads.denyTrailing⟩⟩, hconfig⟩

end TranslationKeys.Config

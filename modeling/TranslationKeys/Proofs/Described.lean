import TranslationKeys.Proofs.Members

/-!
# Texts that describe settings

A text is decoded as settings exactly if it is a document that describes them.  So
the order of the members, the blank characters and the unknown members make no
difference.
-/

namespace TranslationKeys.Config

open RawJson
open Decoder
open Lexeme (Avoids)

variable {α : Type} {rule : KeyRule} {text rest : Text}

/-! ## Arrays -/

section Items

variable {item : Decoder α} {means : RawJson -> α -> Prop} {found : Option α} {between : Text}

theorem nextItem?_first_iff (hitem : Takes item means) :
    nextItem? true item text = .ok (found, between) <->
      (found = none /\ IsBlank text between /\ between.head? = some ']') \/
        exists document value, found = some value /\ means document value /\
          Begins document text between := by
  unfold nextItem?
  rw [bind_ok_iff]
  constructor
  · rintro ⟨c, start, hpeek, hnext⟩
    obtain ⟨hblank, hhead, -⟩ := peekToken_ok_iff.1 hpeek
    split at hnext
    · rename_i hc
      obtain ⟨rfl, rfl⟩ := pure_ok_iff.1 hnext
      exact Or.inl ⟨rfl, hblank, beq_iff_eq.1 hc ▸ hhead⟩
    · rw [if_pos rfl, map_ok_iff] at hnext
      obtain ⟨value, hvalue, rfl⟩ := hnext
      obtain ⟨document, ⟨first, hfirst, hdocument⟩, hmeans⟩ := (hitem _ _ _).1 hvalue
      exact Or.inr ⟨document, value, rfl, hmeans, first, hblank.trans hfirst, hdocument⟩
  · rintro (⟨rfl, hblank, hhead⟩ | ⟨document, value, rfl, hmeans, start, hblank, hvalue⟩)
    · exact ⟨']', between, peekToken_ok_iff.2 ⟨hblank, hhead, rfl⟩, rfl⟩
    · obtain ⟨c, more, rfl, hc⟩ := hvalue.eq_cons
      refine ⟨c, c :: more, peekToken_ok_iff.2 ⟨hblank, rfl, hc.apart.1⟩, ?_⟩
      rw [if_neg (by simpa using hc.apart.2.1), if_pos rfl, map_ok_iff]
      exact ⟨value, (hitem _ _ _).2 ⟨document, ⟨_, .refl _, hvalue⟩, hmeans⟩, rfl⟩

theorem nextItem?_later_iff (hitem : Takes item means) :
    nextItem? false item text = .ok (found, between) <->
      (found = none /\ IsBlank text between /\ between.head? = some ']') \/
        exists document value after, found = some value /\ means document value /\
          IsBlank text (',' :: after) /\ Begins document after between := by
  unfold nextItem?
  rw [bind_ok_iff]
  constructor
  · rintro ⟨c, start, hpeek, hnext⟩
    obtain ⟨hblank, hhead, -⟩ := peekToken_ok_iff.1 hpeek
    split at hnext
    · rename_i hc
      obtain ⟨rfl, rfl⟩ := pure_ok_iff.1 hnext
      exact Or.inl ⟨rfl, hblank, beq_iff_eq.1 hc ▸ hhead⟩
    · rw [if_neg Bool.false_ne_true] at hnext
      split at hnext
      · rename_i hc
        obtain ⟨d, after, htake, hnext⟩ := bind_ok_iff.1 hnext
        obtain ⟨e, first, hpeek', hnext⟩ := bind_ok_iff.1 hnext
        obtain ⟨_, _, hrequire, hnext⟩ := bind_ok_iff.1 hnext
        obtain ⟨-, rfl⟩ := require_ok_iff.1 hrequire
        obtain ⟨value, hvalue, rfl⟩ := map_ok_iff.1 hnext
        obtain ⟨document, ⟨second, hsecond, hdocument⟩, hmeans⟩ := (hitem _ _ _).1 hvalue
        rw [take_ok_iff.1 htake] at hblank hhead
        cases hhead
        rw [beq_iff_eq.1 hc] at hblank
        exact Or.inr ⟨document, value, after, rfl, hmeans, hblank, second,
          (peekToken_ok_iff.1 hpeek').1.trans hsecond, hdocument⟩
      · exact (throw_ok_iff.1 hnext).elim
  · rintro (⟨rfl, hblank, hhead⟩ | ⟨document, value, after, rfl, hmeans, hcomma, start, hblank,
      hvalue⟩)
    · exact ⟨']', between, peekToken_ok_iff.2 ⟨hblank, hhead, rfl⟩, rfl⟩
    · obtain ⟨c, more, rfl, hc⟩ := hvalue.eq_cons
      refine ⟨',', ',' :: after, peekToken_ok_iff.2 ⟨hcomma, rfl, rfl⟩, ?_⟩
      have hnot : (c != ']') = true := bne_iff_ne.2 hc.apart.2.1
      exact bind_ok_iff.2 ⟨',', after, rfl, bind_ok_iff.2 ⟨c, c :: more,
        peekToken_ok_iff.2 ⟨hblank, rfl, hc.apart.1⟩, bind_ok_iff.2 ⟨(), c :: more,
        require_ok_iff.2 ⟨hnot, rfl⟩, map_ok_iff.2 ⟨value,
        (hitem _ _ _).2 ⟨document, ⟨_, .refl _, hvalue⟩, hmeans⟩, rfl⟩⟩⟩⟩

/-- The first of some documents has a meaning, or there is none. -/
inductive Heads (means : RawJson -> α -> Prop) :
    Option α -> List RawJson -> List RawJson -> Prop where
  | none : Heads means none [] []
  | some {document : RawJson} {value : α} {items : List RawJson}
      (hmeans : means document value) : Heads means (some value) (document :: items) items

theorem eq_of_head_of_isBlank {c d : Char} (hhead : text.head? = some c)
    (hc : isJsonSpace c = false) (hd : isJsonSpace d = false)
    (h : IsBlank text (d :: rest)) : c = d := by
  obtain ⟨more, rfl⟩ := List.head?_eq_some_iff.1 hhead
  exact ((IsBlank.refl _).mark_unique h hc hd).1

theorem nextItem?_items_iff (hitem : Takes item means) {items : List RawJson} :
    (exists between, nextItem? true item text = .ok (found, between) /\
      AreMoreItems items between rest) <->
    exists all, IsValue (.array all) ('[' :: text) rest /\ Heads means found all items := by
  constructor
  · rintro ⟨between, hnext, hitems⟩
    rcases (nextItem?_first_iff hitem).1 hnext with ⟨rfl, hblank, hhead⟩ |
      ⟨document, value, rfl, hmeans, start, hblank, hvalue⟩
    · cases hitems with
      | close hend => exact ⟨[], .emptyArray (hblank.trans hend), .none⟩
      | comma hcomma => exact absurd (eq_of_head_of_isBlank hhead rfl rfl hcomma) (by decide)
    · exact ⟨document :: items, .array hblank hvalue hitems, .some hmeans⟩
  · rintro ⟨_, hvalue, _ | hmeans⟩
    · cases hvalue with
      | emptyArray hend =>
          exact ⟨']' :: rest, (nextItem?_first_iff hitem).2 (Or.inl ⟨rfl, hend, rfl⟩),
            .close (.refl _)⟩
    · cases hvalue with
      | array hblank hdocument hitems =>
          exact ⟨_, (nextItem?_first_iff hitem).2
            (Or.inr ⟨_, _, rfl, hmeans, _, hblank, hdocument⟩), hitems⟩

theorem nextItem?_moreItems_iff (hitem : Takes item means) {items : List RawJson} :
    (exists between, nextItem? false item text = .ok (found, between) /\
      AreMoreItems items between rest) <->
    exists all, AreMoreItems all text rest /\ Heads means found all items := by
  constructor
  · rintro ⟨between, hnext, hitems⟩
    rcases (nextItem?_later_iff hitem).1 hnext with ⟨rfl, hblank, hhead⟩ |
      ⟨document, value, after, rfl, hmeans, hcomma, start, hblank, hvalue⟩
    · cases hitems with
      | close hend => exact ⟨[], .close (hblank.trans hend), .none⟩
      | comma hcomma => exact absurd (eq_of_head_of_isBlank hhead rfl rfl hcomma) (by decide)
    · exact ⟨document :: items, .comma hcomma hblank hvalue hitems, .some hmeans⟩
  · rintro ⟨_, hall, _ | hmeans⟩
    · cases hall with
      | close hend =>
          exact ⟨']' :: rest, (nextItem?_later_iff hitem).2 (Or.inl ⟨rfl, hend, rfl⟩),
            .close (.refl _)⟩
    · cases hall with
      | comma hcomma hblank hdocument hitems =>
          exact ⟨_, (nextItem?_later_iff hitem).2
            (Or.inr ⟨_, _, _, rfl, hmeans, hcomma, _, hblank, hdocument⟩), hitems⟩

end Items

theorem heads_iff (fields : Fields) {items : List RawJson} :
    (exists second third, Heads MeansFormat fields.format items second /\
      Heads MeansBoolean fields.trace second third /\
      Heads MeansBoolean fields.denyTrailing third []) <->
    items.length <= 3 /\ Reads items[0]? items[1]? items[2]? fields := by
  obtain ⟨format, trace, denyTrailing⟩ := fields
  constructor
  · rintro ⟨second, third, hformat, htrace, hdeny⟩
    cases hformat with
    | none =>
        cases htrace
        cases hdeny
        exact ⟨Nat.zero_le _, .none, .none, .none⟩
    | some hformat =>
        cases htrace with
        | none =>
            cases hdeny
            exact ⟨by simp, .some hformat, .none, .none⟩
        | some htrace =>
            cases hdeny with
            | none => exact ⟨by simp, .some hformat, .some htrace, .none⟩
            | some hdeny => exact ⟨by simp, .some hformat, .some htrace, .some hdeny⟩
  · rintro ⟨hlength, hformat, htrace, hdeny⟩
    match items with
    | [] =>
        cases hformat
        cases htrace
        cases hdeny
        exact ⟨[], [], .none, .none, .none⟩
    | [first] =>
        cases htrace
        cases hdeny
        cases hformat with
        | some hformat => exact ⟨[], [], .some hformat, .none, .none⟩
    | [first, second] =>
        cases hdeny
        cases hformat with
        | some hformat =>
            cases htrace with
            | some htrace => exact ⟨[second], [], .some hformat, .some htrace, .none⟩
    | [first, second, third] =>
        cases hformat with
        | some hformat =>
            cases htrace with
            | some htrace =>
                cases hdeny with
                | some hdeny =>
                    exact ⟨[second, third], [third], .some hformat, .some htrace, .some hdeny⟩
    | _ :: _ :: _ :: _ :: _ =>
        simp only [List.length_cons] at hlength
        omega

theorem areMoreItems_nil_iff : AreMoreItems [] text rest <-> IsBlank text (']' :: rest) := by
  constructor
  · rintro ⟨hend⟩
    exact hend
  · exact .close

/-- An array after its opening bracket. -/
theorem decodeArray_ok_iff {config : Config} :
    decodeArray rule text = .ok (config, rest) <->
      exists items fields, IsValue (.array items) ('[' :: text) rest /\ items.length <= 3 /\
        Reads items[0]? items[1]? items[2]? fields /\ config = fields.toConfig := by
  constructor
  · intro h
    obtain ⟨format, first, hformat, hnext⟩ := bind_ok_iff.1 h
    obtain ⟨trace, second, htrace, hnext⟩ := bind_ok_iff.1 hnext
    obtain ⟨denyTrailing, third, hdeny, hnext⟩ := bind_ok_iff.1 hnext
    obtain ⟨_, _, hclose, hnext⟩ := bind_ok_iff.1 hnext
    obtain ⟨rfl, rfl⟩ := pure_ok_iff.1 hnext
    have hend := areMoreItems_nil_iff.2 ((expectToken_ok_iff rfl).1 hclose)
    obtain ⟨afterTrace, hlast, hdeny⟩ :=
      (nextItem?_moreItems_iff decodeBoolean_takes).1 ⟨third, hdeny, hend⟩
    obtain ⟨afterFormat, hmiddle, htrace⟩ :=
      (nextItem?_moreItems_iff decodeBoolean_takes).1 ⟨second, htrace, hlast⟩
    obtain ⟨items, hvalue, hformat⟩ :=
      (nextItem?_items_iff decodeFormat_takes).1 ⟨first, hformat, hmiddle⟩
    obtain ⟨hlength, hreads⟩ := (heads_iff ⟨format, trace, denyTrailing⟩).1
      ⟨afterFormat, afterTrace, hformat, htrace, hdeny⟩
    exact ⟨items, ⟨format, trace, denyTrailing⟩, hvalue, hlength, hreads, rfl⟩
  · rintro ⟨items, ⟨format, trace, denyTrailing⟩, hvalue, hlength, hreads, rfl⟩
    obtain ⟨afterFormat, afterTrace, hformat, htrace, hdeny⟩ := (heads_iff _).2 ⟨hlength, hreads⟩
    obtain ⟨first, hformat, hmiddle⟩ :=
      (nextItem?_items_iff decodeFormat_takes).2 ⟨items, hvalue, hformat⟩
    obtain ⟨second, htrace, hlast⟩ :=
      (nextItem?_moreItems_iff decodeBoolean_takes).2 ⟨afterFormat, hmiddle, htrace⟩
    obtain ⟨third, hdeny, hend⟩ :=
      (nextItem?_moreItems_iff decodeBoolean_takes).2 ⟨afterTrace, hlast, hdeny⟩
    have hclose : expectToken ']' third = .ok ((), rest) :=
      (expectToken_ok_iff rfl).2 (areMoreItems_nil_iff.1 hend)
    exact bind_ok_iff.2 ⟨format, first, hformat, bind_ok_iff.2 ⟨trace, second, htrace,
      bind_ok_iff.2 ⟨denyTrailing, third, hdeny, bind_ok_iff.2 ⟨(), rest, hclose, rfl⟩⟩⟩⟩

theorem describes_array_iff {items : List RawJson} {config : Config} :
    Describes (.array items) config <->
      items.length <= 3 /\ exists fields, Reads items[0]? items[1]? items[2]? fields /\
        config = fields.toConfig := by
  rw [← sets_iff]
  constructor
  · rintro (_ | ⟨hlength, hsets⟩)
    exact ⟨hlength, hsets⟩
  · rintro ⟨hlength, hsets⟩
    exact .array hlength hsets

/-! ## Whole texts -/

theorem decodeConfig_ok_iff {config : Config} :
    decodeConfig rule text = .ok (config, rest) <->
      exists document, Begins document text rest /\ document.KeysUnescape /\
        Describes document config := by
  constructor
  · intro h
    obtain ⟨c, after, htoken, hnext⟩ := bind_ok_iff.1 h
    obtain ⟨hblank, -⟩ := takeToken_ok_iff.1 htoken
    split at hnext
    · rename_i hc
      obtain ⟨members, fields, hvalue, hall, hconfig⟩ := decodeObject_ok_iff.1 hnext
      obtain ⟨hkeys, hdescribes⟩ := describes_object_iff.1 ⟨fields, hall, hconfig⟩
      rw [beq_iff_eq.1 hc] at hblank
      exact ⟨_, ⟨_, hblank, hvalue⟩, hkeys, hdescribes⟩
    · split at hnext
      · rename_i hc
        obtain ⟨items, fields, hvalue, hlength, hreads, hconfig⟩ := decodeArray_ok_iff.1 hnext
        rw [beq_iff_eq.1 hc] at hblank
        exact ⟨_, ⟨_, hblank, hvalue⟩, trivial,
          describes_array_iff.2 ⟨hlength, fields, hreads, hconfig⟩⟩
      · exact (rejectType_ok_iff.1 hnext).elim
  · rintro ⟨document, ⟨start, hblank, hvalue⟩, hkeys, hdescribes⟩
    cases document with
    | object members =>
        obtain ⟨fields, hall, hconfig⟩ := describes_object_iff.2 ⟨hkeys, hdescribes⟩
        obtain ⟨after, rfl⟩ := hvalue.object_text
        exact bind_ok_iff.2 ⟨'{', after, takeToken_ok_iff.2 ⟨hblank, rfl⟩,
          decodeObject_ok_iff.2 ⟨members, fields, hvalue, hall, hconfig⟩⟩
    | array items =>
        obtain ⟨hlength, fields, hreads, hconfig⟩ := describes_array_iff.1 hdescribes
        obtain ⟨after, rfl⟩ := hvalue.array_text
        exact bind_ok_iff.2 ⟨'[', after, takeToken_ok_iff.2 ⟨hblank, rfl⟩,
          decodeArray_ok_iff.2 ⟨items, fields, hvalue, hlength, hreads, hconfig⟩⟩
    | _ => cases hdescribes

theorem atEnd_ok_iff {result : Unit} :
    (exists after, atEnd text = .ok (result, after)) <-> IsBlank text [] := by
  rw [isBlank_iff_dropWhile_eq (avoids_nil isJsonSpace)]
  change (exists after, require (text.dropWhile isJsonSpace).isEmpty
    (text.dropWhile isJsonSpace) = .ok (result, after)) <-> _
  simp only [require_ok_iff, List.isEmpty_iff, exists_and_left, exists_eq', and_true]

theorem run'_ok_iff {decoder : Decoder α} {value : α} :
    decoder.run' text = .ok value <-> exists after, decoder text = .ok (value, after) := by
  change (fun taken : α × Text => taken.1) <$> decoder text = _ <-> _
  cases decoder text with
  | error error => simp
  | ok taken =>
      obtain ⟨result, after⟩ := taken
      simp

/-- A text is decoded exactly if it is a document that describes settings and has proper keys. -/
theorem decodeBy_ok_iff {config : Config} :
    decodeBy rule text = .ok config <->
      exists document, IsDocument document text /\ document.KeysUnescape /\
        Describes document config := by
  unfold decodeBy
  rw [run'_ok_iff]
  constructor
  · rintro ⟨after, h⟩
    obtain ⟨_, rest, hconfig, hnext⟩ := bind_ok_iff.1 h
    obtain ⟨_, last, hend, hpure⟩ := bind_ok_iff.1 hnext
    obtain ⟨rfl, rfl⟩ := pure_ok_iff.1 hpure
    obtain ⟨document, hbegins, hkeys, hdescribes⟩ := decodeConfig_ok_iff.1 hconfig
    exact ⟨document, ⟨rest, hbegins, atEnd_ok_iff.1 ⟨last, hend⟩⟩, hkeys, hdescribes⟩
  · rintro ⟨document, ⟨rest, hbegins, hblank⟩, hkeys, hdescribes⟩
    obtain ⟨last, hend⟩ := atEnd_ok_iff.2 hblank
    exact ⟨last, bind_ok_iff.2 ⟨config, rest,
      decodeConfig_ok_iff.2 ⟨document, hbegins, hkeys, hdescribes⟩,
      bind_ok_iff.2 ⟨(), last, hend, rfl⟩⟩⟩

theorem decode_ok_iff {config : Config} :
    decode text = .ok config <->
      exists document, IsDocument document text /\ document.KeysUnescape /\
        Describes document config :=
  decodeBy_ok_iff

/-! ## Differences that do not count -/

def settingNames : List Text :=
  ["format".toList, "trace".toList, "denyTrailing".toList]

/-- Objects that differ in the order of their members and in unknown members only. -/
inductive IsAlike : RawJson -> RawJson -> Prop where
  | refl (document : RawJson) : IsAlike document document
  | object {first second shared unknown unknown' : List (Text × RawJson)}
      (hfirst : first.Perm (shared ++ unknown)) (hsecond : second.Perm (shared ++ unknown'))
      (hunknown : ∀ member ∈ unknown ++ unknown', ∀ name ∈ settingNames,
        ¬ Unescapes member.1 name) :
      IsAlike (.object first) (.object second)

theorem finds_perm {first second : List (Text × RawJson)} {name : Text}
    {found : Option RawJson} (hperm : first.Perm second) (h : Finds first name found) :
    Finds second name found := by
  cases found with
  | none => exact fun member hmember => h member (hperm.mem_iff.2 hmember)
  | some value =>
      obtain ⟨before, key, after, rfl, hkey, hunnamed⟩ := h
      have hmember : (key, value) ∈ second := hperm.mem_iff.1 (by simp)
      obtain ⟨before', after', rfl⟩ := List.append_of_mem hmember
      have hothers : (before ++ after).Perm (before' ++ after') := by
        exact (List.perm_middle.symm.trans (hperm.trans List.perm_middle)).cons_inv
      exact ⟨before', key, after', rfl, hkey,
        fun member hmember => hunnamed member (hothers.mem_iff.2 hmember)⟩

theorem finds_append_unknown {shared unknown : List (Text × RawJson)} {name : Text}
    {found : Option RawJson} (hunknown : ∀ member ∈ unknown, ¬ Unescapes member.1 name) :
    Finds (shared ++ unknown) name found <-> Finds shared name found := by
  induction shared with
  | nil =>
      cases found with
      | none => exact iff_of_true hunknown nofun
      | some value =>
          constructor
          · rintro ⟨before, key, after, rfl, hkey, -⟩
            exact absurd hkey (hunknown (key, value) (by simp))
          · rintro ⟨before, key, after, hmembers, -⟩
            cases before <;> cases hmembers
  | cons member shared ih =>
      obtain ⟨key, value⟩ := member
      by_cases hkey : Unescapes key name
      · rw [List.cons_append, finds_cons_of_named hkey, finds_cons_of_named hkey,
          List.forall_mem_append]
        exact and_congr_right fun _ => and_iff_left hunknown
      · rw [List.cons_append, finds_cons_of_other hkey, finds_cons_of_other hkey, ih]

theorem IsAlike.finds {first second : List (Text × RawJson)}
    (h : IsAlike (.object first) (.object second)) {name : Text} (hname : name ∈ settingNames)
    {found : Option RawJson} : Finds first name found <-> Finds second name found := by
  cases h with
  | refl => exact Iff.rfl
  | @object first second shared unknown unknown' hfirst hsecond hunknown =>
      have hleft : Finds first name found <-> Finds shared name found :=
        (Iff.intro (finds_perm hfirst) (finds_perm hfirst.symm)).trans
          (finds_append_unknown fun member hmember =>
            hunknown member (List.mem_append_left _ hmember) name hname)
      have hright : Finds second name found <-> Finds shared name found :=
        (Iff.intro (finds_perm hsecond) (finds_perm hsecond.symm)).trans
          (finds_append_unknown fun member hmember =>
            hunknown member (List.mem_append_right _ hmember) name hname)
      exact hleft.trans hright.symm

theorem IsAlike.describes_iff {first second : RawJson} (h : IsAlike first second)
    {config : Config} : Describes first config <-> Describes second config := by
  cases first with
  | object members =>
      obtain ⟨others, rfl⟩ : exists others, second = .object others := by
        cases h with
        | refl => exact ⟨members, rfl⟩
        | object => exact ⟨_, rfl⟩
      have hfinds {name : Text} (hname : name ∈ settingNames) {found : Option RawJson} :
          Finds members name found <-> Finds others name found :=
        h.finds hname
      constructor
      · rintro (⟨hformat, htrace, hdeny, hsets⟩ | _)
        exact .object ((hfinds (by simp [settingNames])).1 hformat)
          ((hfinds (by simp [settingNames])).1 htrace)
          ((hfinds (by simp [settingNames])).1 hdeny) hsets
      · rintro (⟨hformat, htrace, hdeny, hsets⟩ | _)
        exact .object ((hfinds (by simp [settingNames])).2 hformat)
          ((hfinds (by simp [settingNames])).2 htrace)
          ((hfinds (by simp [settingNames])).2 hdeny) hsets
  | _ =>
      cases h
      exact Iff.rfl

/-- The settings that a document describes are those of each text that is the document. -/
theorem decode_document_iff {document : RawJson} (htext : hasSurrogate text = false)
    (h : IsDocument document text) {config : Config} :
    decode text = .ok config <-> Describes document config := by
  rw [decode_ok_iff]
  constructor
  · rintro ⟨other, hother, -, hdescribes⟩
    cases h.unique hother
    exact hdescribes
  · intro hdescribes
    exact ⟨document, h, h.keysUnescape htext, hdescribes⟩

/--
A text without escapes of surrogates is decoded exactly if it is a document that
describes settings, and they are the result.  The order of the members, the blank
characters and the unknown members make no difference.
-/
theorem decode_describes {text : Text} (htext : hasSurrogate text = false) :
    (forall config, decode text = .ok config <->
      exists document, IsDocument document text /\ Describes document config) /\
    (forall other document document', hasSurrogate other = false -> IsDocument document text ->
      IsDocument document' other -> IsAlike document document' ->
        forall config, decode text = .ok config <-> decode other = .ok config) := by
  constructor
  · intro config
    rw [decode_ok_iff]
    constructor
    · rintro ⟨document, h, -, hdescribes⟩
      exact ⟨document, h, hdescribes⟩
    · rintro ⟨document, h, hdescribes⟩
      exact ⟨document, h, h.keysUnescape htext, hdescribes⟩
  · intro other document document' hother h h' halike config
    rw [decode_document_iff htext h, decode_document_iff hother h', halike.describes_iff]

/-- An unknown member with a nested value, and a setting whose key is written with an escape. -/
def nestedText : Text :=
  "\x7b \"x\": [1.5e3, \x7b\x7d], \"tr\\u0061ce\": true \x7d".toList

/-- The document of this text describes the default settings but for one of them. -/
theorem nestedText_is_described :
    hasSurrogate nestedText = false /\
      exists document, IsDocument document nestedText /\
        Describes document { default with trace := true } := by
  have htext : hasSurrogate nestedText = false := by decide +kernel
  have hoption : (decode nestedText).toOption = some { default with trace := true } := by
    decide +kernel
  have hdecode : decode nestedText = .ok { default with trace := true } := by
    cases hresult : decode nestedText with
    | error error =>
        rw [hresult] at hoption
        cases hoption
    | ok config =>
        rw [hresult] at hoption
        exact congrArg Except.ok (Option.some.inj hoption)
  exact ⟨htext, ((decode_describes htext).1 _).1 hdecode⟩

end TranslationKeys.Config

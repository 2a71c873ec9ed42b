import TranslationKeys.Proofs.FirstProblem

/-!
# Configurations that are cut off

No front of a configuration is taken for one.  A text that is cut off in front of its
last bracket is cut off for the decoder as well, wherever the cut falls.  Only a cut
inside the number of an unknown member, right behind a mark of the number, makes the
text malformed.
-/

namespace TranslationKeys

/-! ## The grammar in front of more text -/

namespace RawJson

open Lexeme (Avoids)
open Decoder (continuesNumber)

variable {text rest : Text}

theorem IsBlank.append (h : IsBlank text rest) (more : Text) :
    IsBlank (text ++ more) (rest ++ more) := by
  obtain ⟨blank, hblank, rfl⟩ := h
  exact ⟨blank, hblank, List.append_assoc _ _ _⟩

theorem IsKey.append {key : Text} (h : IsKey key text rest) (more : Text) :
    IsKey key (text ++ more) (rest ++ more) := by
  obtain ⟨after, hbody, hquote, hcolon⟩ := h
  refine ⟨after ++ more, hbody, ?_, hcolon.append more⟩
  simpa only [List.cons_append, List.append_assoc] using hquote.append more

mutual

/-- A text begins with the same values however it goes on. -/
theorem IsValue.append (more : Text) :
    forall {document : RawJson} {text rest : Text}, IsValue document text rest ->
      IsValue document (text ++ more) (rest ++ more)
  | _, _, _, .null => .null
  | _, _, _, .boolean true => .boolean true
  | _, _, _, .boolean false => .boolean false
  | _, _, _, .number hnumber => by
      rw [List.append_assoc]
      exact .number hnumber
  | _, _, _, .string hbody => by
      rw [List.cons_append, List.append_assoc]
      exact .string hbody
  | _, _, _, .emptyArray hend => .emptyArray (hend.append more)
  | _, _, _, .array hblank hitem hitems =>
      .array (hblank.append more) (hitem.append more) (hitems.append more)
  | _, _, _, .emptyObject hend => .emptyObject (hend.append more)
  | _, _, _, .object hkey hblank hvalue hmembers =>
      .object (hkey.append more) (hblank.append more) (hvalue.append more) (hmembers.append more)

theorem AreMoreItems.append (more : Text) :
    forall {items : List RawJson} {text rest : Text}, AreMoreItems items text rest ->
      AreMoreItems items (text ++ more) (rest ++ more)
  | _, _, _, .close hend => .close (hend.append more)
  | _, _, _, .comma hcomma hblank hitem hitems =>
      .comma (hcomma.append more) (hblank.append more) (hitem.append more) (hitems.append more)

theorem AreMoreMembers.append (more : Text) :
    forall {members : List (Text × RawJson)} {text rest : Text},
      AreMoreMembers members text rest -> AreMoreMembers members (text ++ more) (rest ++ more)
  | _, _, _, .close hend => .close (hend.append more)
  | _, _, _, .comma hcomma hkey hblank hvalue hmembers =>
      .comma (hcomma.append more) (hkey.append more) (hblank.append more) (hvalue.append more)
        (hmembers.append more)

end

theorem Begins.append {document : RawJson} (h : Begins document text rest) (more : Text) :
    Begins document (text ++ more) (rest ++ more) := by
  obtain ⟨start, hblank, hvalue⟩ := h
  exact ⟨start ++ more, hblank.append more, hvalue.append more⟩

/-! ## The bracket that closes a value -/

theorem AreMoreItems.closing_isSuffix {items : List RawJson} (h : AreMoreItems items text rest) :
    (']' :: rest) <:+ text := by
  induction items generalizing text with
  | nil =>
      cases h with
      | close hend => exact hend.isSuffix
  | cons item items ih =>
      cases h with
      | comma hcomma hblank hitem hitems =>
          exact (ih hitems).trans
            (hitem.isSuffix.trans (hblank.isSuffix.trans hcomma.mark_isSuffix))

theorem AreMoreMembers.closing_isSuffix {members : List (Text × RawJson)}
    (h : AreMoreMembers members text rest) : ('}' :: rest) <:+ text := by
  induction members generalizing text with
  | nil =>
      cases h with
      | close hend => exact hend.isSuffix
  | cons member members ih =>
      cases h with
      | comma hcomma hkey hblank hvalue hmembers =>
          exact (ih hmembers).trans (hvalue.isSuffix.trans
            (hblank.isSuffix.trans (hkey.isSuffix.trans hcomma.mark_isSuffix)))

theorem IsValue.closing_isSuffix_of_array {items : List RawJson}
    (h : IsValue (.array items) text rest) : (']' :: rest) <:+ text := by
  cases h with
  | emptyArray hend => exact hend.isSuffix.trans (List.suffix_cons _ _)
  | array hblank hitem hitems =>
      exact hitems.closing_isSuffix.trans
        (hitem.isSuffix.trans (hblank.isSuffix.trans (List.suffix_cons _ _)))

theorem IsValue.closing_isSuffix_of_object {members : List (Text × RawJson)}
    (h : IsValue (.object members) text rest) : ('}' :: rest) <:+ text := by
  cases h with
  | emptyObject hend => exact hend.isSuffix.trans (List.suffix_cons _ _)
  | object hkey hblank hvalue hmembers =>
      exact hmembers.closing_isSuffix.trans (hvalue.isSuffix.trans
        (hblank.isSuffix.trans (hkey.isSuffix.trans (List.suffix_cons _ _))))

theorem Begins.unique {document other : RawJson} {behind : Text} (h : Begins document text rest)
    (hother : Begins other text behind) (hrest : Avoids continuesNumber rest)
    (hbehind : Avoids continuesNumber behind) : document = other /\ rest = behind := by
  obtain ⟨start, hblank, hvalue⟩ := h
  obtain ⟨start', hblank', hvalue'⟩ := hother
  cases hblank.unique hblank' hvalue.avoids_space hvalue'.avoids_space
  exact hvalue.unique hvalue' hrest hbehind

end RawJson

namespace Config

open RawJson
open Decoder
open Lexeme (Avoids)

variable {rule : KeyRule} {text more rest : Text}

/-! ## Decoding comes to each member -/

/-- An object from the quote of one of its members on. -/
def decodeFrom (rule : KeyRule) (fields : Fields) : Decoder Config := do
  let next <- decodeMember rule fields
  let last <- decodeMore rule next
  return last.toConfig

theorem bind_congr_left {α β : Type} {first other : Decoder α} {behind : Text}
    (h : first text = other behind) (next : α -> Decoder β) :
    (first >>= next) text = (other >>= next) behind := by
  change (first text >>= fun taken => next taken.1 taken.2) = _
  rw [h]
  rfl

theorem decodeConfig_first {key inside value : Text} (hopen : IsBlank text ('{' :: inside))
    (hkey : IsKey key inside value) : decodeConfig rule text = decodeFrom rule .empty inside := by
  obtain ⟨after, -, hquote, -⟩ := hkey
  have hexpect : expectToken '\x22' inside = .ok ((), key ++ '\x22' :: after) :=
    (expectToken_ok_iff rfl).2 hquote
  rw [decodeConfig, bind_of_ok (takeToken_ok_iff.2 ⟨hopen, rfl⟩), if_pos (beq_self_eq_true _),
    decodeObject, bind_of_ok (takeToken_ok_iff.2 ⟨hquote, rfl⟩), if_neg (by decide),
    if_pos (beq_self_eq_true _), decodeFrom, decodeMember, bind_assoc, bind_of_ok hexpect]

theorem decodeFrom_next {fields next : Fields} {after behind : Text}
    (hmember : decodeMember rule fields text = .ok (next, after))
    (hcomma : IsBlank after (',' :: behind)) :
    decodeFrom rule fields text = decodeFrom rule next behind := by
  have hmore : decodeMore rule next after =
      (decodeMember rule next >>= decodeMore rule) behind := by
    rw [decodeMore_eq, bind_of_ok (takeToken_ok_iff.2 ⟨hcomma, rfl⟩), if_neg (by decide),
      if_pos (beq_self_eq_true _)]
  rw [decodeFrom, bind_of_ok hmember, bind_congr_left hmore, bind_assoc, decodeFrom]

theorem member_of_decodeFrom {fields : Fields} {config : Config}
    (h : decodeFrom rule fields text = .ok (config, rest)) :
    exists next after, decodeMember rule fields text = .ok (next, after) /\
      Avoids continuesNumber after := by
  obtain ⟨next, after, hmember, hnext⟩ := bind_ok_iff.1 h
  obtain ⟨last, _, hmore, -⟩ := bind_ok_iff.1 hnext
  exact ⟨next, after, hmember, ends_of_decodeFields hmore⟩

/-- A member that is complete is decoded in front of any text as it is in front of another. -/
theorem decodeMember_of_append {fields : Fields} {config : Config} {key place after : Text}
    {document : RawJson} (hkey : IsKey key text place) (hbegins : Begins document place after)
    (hafter : Avoids continuesNumber after) (hnonempty : after ≠ [])
    (h : decodeFrom rule fields (text ++ more) = .ok (config, rest)) :
    exists next, decodeMember rule fields text = .ok (next, after) /\
      decodeMember rule fields (text ++ more) = .ok (next, after ++ more) := by
  obtain ⟨next, behind, hmember, hbehind⟩ := member_of_decodeFrom h
  obtain ⟨other, name, start, value, hother, hvalue, hname, hadds⟩ :=
    (decodeMember_ok_iff hbehind).1 hmember
  obtain ⟨rfl, rfl⟩ := (hkey.append more).unique hother
  obtain ⟨rfl, rfl⟩ := (hbegins.append more).unique hvalue (hafter.append hnonempty more) hbehind
  exact ⟨next, (decodeMember_ok_iff hafter).2
    ⟨key, name, place, document, hkey, hbegins, hname, hadds⟩, hmember⟩

/-- Decoding comes to each member of the object that a text begins with. -/
theorem decodeConfig_at {key value : Text} {config : Config} (h : IsAt text [.member key] value)
    (hok : decodeConfig rule (text ++ more) = .ok (config, rest)) :
    exists fields before, IsKey key before value /\
      decodeConfig rule text = decodeFrom rule fields before /\
      decodeConfig rule (text ++ more) = decodeFrom rule fields (before ++ more) := by
  generalize hpath : [Step.member key] = path at h
  induction h generalizing key with
  | whole => cases hpath
  | @first path step place inside value h hopen hlead _ =>
      cases hpath
      cases h
      exact ⟨.empty, inside, hlead, decodeConfig_first hopen hlead,
        decodeConfig_first (hopen.append more) (hlead.append more)⟩
  | @next path step other place after behind value document h hvalue hcomma hbracket hlead ih =>
      cases hpath
      obtain ⟨last, rfl⟩ := Step.eq_member hbracket.symm
      obtain ⟨fields, before, hkey, htext, hmore⟩ := ih rfl
      have hends := ends_of_isBlank (by decide) hcomma
      obtain ⟨next, hfront, hwhole⟩ :=
        decodeMember_of_append hkey hvalue hends hcomma.ne_nil (hmore.symm.trans hok)
      exact ⟨next, behind, hlead, htext.trans (decodeFrom_next hfront hcomma),
        hmore.trans (decodeFrom_next hwhole (hcomma.append more))⟩

/-- An unknown member has the problem of its value. -/
theorem decodeMember_of_skipValue {fields : Fields} {key name place : Text} {error : DecodeError}
    (hkey : IsKey key text place) (hname : Unescapes key name) (hunknown : name ∉ settingNames)
    (h : skipValue place = .error error) : decodeMember rule fields text = .error error := by
  obtain ⟨after, -, hquote, hcolon⟩ := hkey
  simp only [settingNames, List.mem_cons, List.not_mem_nil, or_false, not_or] at hunknown
  have hexpect : expectToken '\x22' text = .ok ((), key ++ '\x22' :: after) :=
    (expectToken_ok_iff rfl).2 hquote
  have hcolon : expectToken ':' after = .ok ((), place) := (expectToken_ok_iff rfl).2 hcolon
  rw [decodeMember, bind_of_ok hexpect, decodeField_eq,
    bind_of_ok (keptString_of_unescapes hname after), decodeNamed,
    if_neg (by simpa using hunknown.1), if_neg (by simpa using hunknown.2.1),
    if_neg (by simpa using hunknown.2.2), bind_of_ok hcolon, bind_of_error h]

/-- A number of an unknown member that ends in a mark makes the text malformed. -/
theorem decodeConfig_of_endsInUnknownNumber {config : Config} (h : EndsInUnknownNumber text)
    (hok : decodeConfig rule (text ++ more) = .ok (config, rest)) :
    decodeConfig rule text = .error .malformed := by
  obtain ⟨path, key, ⟨place, front, hplace, hblank, hcut⟩, hunknown⟩ := h
  obtain ⟨value, hvalue, hinner⟩ := hplace.exists_outermost
  obtain ⟨fields, before, hkey, htext, hmore⟩ := decodeConfig_at hvalue hok
  obtain ⟨next, after, hmember, hafter⟩ := member_of_decodeFrom (hmore.symm.trans hok)
  obtain ⟨other, name, start, document, hother, -, hname, -⟩ :=
    (decodeMember_ok_iff hafter).1 hmember
  obtain ⟨rfl, rfl⟩ := (hkey.append more).unique hother
  have hskip : skipValue value = .error .malformed :=
    EndsInNumber.skipValue_eq ⟨place, front, hinner, hblank, hcut⟩
  rw [htext, decodeFrom, bind_of_error (decodeMember_of_skipValue hkey hname
    (fun hmem => hunknown name hmem hname) hskip)]

/-! ## Whole texts -/

/-- The settings of a text are decoded from a document, and only blank characters follow it. -/
theorem decodeConfig_of_decodeBy {config : Config} (h : decodeBy rule text = .ok config) :
    exists rest, decodeConfig rule text = .ok (config, rest) /\ IsBlank rest [] := by
  unfold decodeBy at h
  obtain ⟨after, hwhole⟩ := run'_ok_iff.1 h
  obtain ⟨_, rest, hconfig, hnext⟩ := bind_ok_iff.1 hwhole
  obtain ⟨_, last, hend, hpure⟩ := bind_ok_iff.1 hnext
  obtain ⟨rfl, rfl⟩ := pure_ok_iff.1 hpure
  exact ⟨rest, hconfig, atEnd_ok_iff.1 ⟨last, hend⟩⟩

theorem closing_of_describes {document : RawJson} {config : Config}
    (h : Describes document config) (hvalue : IsValue document text rest) :
    exists close, (close = ']' \/ close = '}') /\ (close :: rest) <:+ text := by
  cases h with
  | object => exact ⟨'}', Or.inr rfl, hvalue.closing_isSuffix_of_object⟩
  | array => exact ⟨']', Or.inl rfl, hvalue.closing_isSuffix_of_array⟩

/-- A front of settings that leaves out more than what follows them is no settings. -/
theorem decodeBy_front {config : Config}
    (h : decodeConfig rule (text ++ more) = .ok (config, rest))
    (hmore : rest.length < more.length) :
    (EndsInUnknownNumber text -> decodeBy rule text = .error .malformed) /\
      (¬ EndsInUnknownNumber text -> decodeBy rule text = .error .cutOff) := by
  constructor
  · intro hnumber
    exact decodeBy_of_error (decodeConfig_of_endsInUnknownNumber hnumber h)
  · intro hnumber
    rcases (decodeConfig_extends text more).front_of_ok h with
      ⟨behind, -, rfl⟩ | hcutOff | ⟨hended, -⟩ | ⟨hunfinished, -⟩
    · rw [List.length_append] at hmore
      omega
    · exact decodeBy_of_error hcutOff
    · exact hended.elim
    · exact absurd hunfinished hnumber

/--
A configuration that is cut off is never taken for one.  Each front of a text that
holds settings, up to the bracket that closes them, is rejected as cut off.  Where it
ends in the number of an unknown member, right behind a sign, the point or the mark of
the exponent, it is malformed instead.  It is never a value of the wrong shape.
-/
theorem cut_settings_are_rejected {text : Text} {config : Config} (h : decode text = .ok config) :
    exists document inside close rest, Begins document text rest /\ IsBlank rest [] /\
      text = inside ++ close :: rest /\ (close = ']' \/ close = '}') /\
        forall front, front <+: inside ->
          (EndsInUnknownNumber front -> decode front = .error .malformed) /\
            (¬ EndsInUnknownNumber front -> decode front = .error .cutOff) := by
  obtain ⟨rest, hconfig, hend⟩ := decodeConfig_of_decodeBy h
  obtain ⟨document, ⟨start, hstart, hvalue⟩, -, hdescribes⟩ := decodeConfig_ok_iff.1 hconfig
  obtain ⟨close, hclose, hsuffix⟩ := closing_of_describes hdescribes hvalue
  obtain ⟨inside, hinside⟩ := hsuffix.trans hstart.isSuffix
  refine ⟨document, inside, close, rest, ⟨start, hstart, hvalue⟩, hend, hinside.symm, hclose, ?_⟩
  rintro front ⟨back, rfl⟩
  rw [List.append_assoc] at hinside
  rw [← hinside] at hconfig
  refine decodeBy_front hconfig ?_
  simp only [List.length_append, List.length_cons]
  omega

/-- A number of an unknown member is cut off behind its first digit, and behind its point. -/
theorem nestedText_cut :
    decode nestedText = .ok { default with trace := true } /\
      decode (nestedText.take 9) = .error .cutOff /\
      decode (nestedText.take 10) = .error .malformed /\
      exists document inside close rest, Begins document nestedText rest /\ IsBlank rest [] /\
        nestedText = inside ++ close :: rest /\ (close = ']' \/ close = '}') /\
          forall front, front <+: inside ->
            (EndsInUnknownNumber front -> decode front = .error .malformed) /\
              (¬ EndsInUnknownNumber front -> decode front = .error .cutOff) := by
  have h : decode nestedText = .ok { default with trace := true } := by decide +kernel
  exact ⟨h, by decide +kernel, by decide +kernel, cut_settings_are_rejected h⟩

end Config

end TranslationKeys

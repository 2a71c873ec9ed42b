import TranslationKeys.Config.Decoder
import TranslationKeys.Proofs.Unambiguous

/-!
# The settings of a document

A document describes settings if it is an object with at most one member for each
setting and any other members, or an array of at most three settings in order.
The decoders of the values of settings take exactly the documents that mean such a
value.
-/

namespace TranslationKeys.Config

open RawJson
open Decoder
open Lexeme (Avoids)

/-! ## Documents that describe settings -/

inductive MeansFormat : RawJson -> ReportFormat -> Prop where
  | name {body : Text} {format : ReportFormat} (hbody : Unescapes body format.name) :
      MeansFormat (.string body) format
  | member {key : Text} {format : ReportFormat} (hkey : Unescapes key format.name) :
      MeansFormat (.object [(key, .null)]) format

def MeansBoolean (document : RawJson) (value : Bool) : Prop :=
  document = .boolean value

/-- The value of the only member with some name, or none if no member has it. -/
def Finds (members : List (Text × RawJson)) (name : Text) : Option RawJson -> Prop
  | none => ∀ member ∈ members, ¬ Unescapes member.1 name
  | some value => exists before key after, members = before ++ (key, value) :: after /\
      Unescapes key name /\ ∀ member ∈ before ++ after, ¬ Unescapes member.1 name

/-- A setting is what its document means, or the default if there is no document for it. -/
def IsSetting {α : Type} (means : RawJson -> α -> Prop) (missing : α) :
    Option RawJson -> α -> Prop
  | none, value => value = missing
  | some document, value => means document value

/-- The settings that are given by documents, which may be missing. -/
structure Sets (format trace denyTrailing : Option RawJson) (config : Config) : Prop where
  format : IsSetting MeansFormat default.format format config.format
  trace : IsSetting MeansBoolean default.trace trace config.trace
  denyTrailing : IsSetting MeansBoolean default.denyTrailing denyTrailing config.denyTrailing

inductive Describes : RawJson -> Config -> Prop where
  | object {members : List (Text × RawJson)} {format trace denyTrailing : Option RawJson}
      {config : Config} (hformat : Finds members "format".toList format)
      (htrace : Finds members "trace".toList trace)
      (hdenyTrailing : Finds members "denyTrailing".toList denyTrailing)
      (hsets : Sets format trace denyTrailing config) : Describes (.object members) config
  | array {items : List RawJson} {config : Config} (hlength : items.length <= 3)
      (hsets : Sets items[0]? items[1]? items[2]? config) : Describes (.array items) config

/-! ## Values of fields -/

variable {α : Type} {rule : KeyRule} {text rest : Text}

/-- A decoder takes the documents that have a meaning, and gives it. -/
def Takes (item : Decoder α) (means : RawJson -> α -> Prop) : Prop :=
  forall text value rest, item text = .ok (value, rest) <->
    exists document, Begins document text rest /\ means document value

theorem rejectType_ok_iff {first : Char} {expected : Text} {value : α} :
    (rejectType first expected : Decoder α) text = .ok (value, rest) <-> False := by
  unfold rejectType
  simp only [bind_ok_iff, throw_ok_iff, and_false, exists_false]

theorem decodeBoolean_takes : Takes decodeBoolean MeansBoolean := by
  intro text value rest
  constructor
  · intro h
    obtain ⟨c, after, htoken, hnext⟩ := bind_ok_iff.1 h
    obtain ⟨hblank, -⟩ := takeToken_ok_iff.1 htoken
    split at hnext
    · rename_i hc
      obtain ⟨_, _, hword, hend⟩ := bind_ok_iff.1 hnext
      obtain ⟨rfl, rfl⟩ := pure_ok_iff.1 hend
      rw [beq_iff_eq.1 hc, literal_ok_iff.1 hword] at hblank
      exact ⟨_, ⟨_, hblank, .boolean true⟩, rfl⟩
    · split at hnext
      · rename_i hc
        obtain ⟨_, _, hword, hend⟩ := bind_ok_iff.1 hnext
        obtain ⟨rfl, rfl⟩ := pure_ok_iff.1 hend
        rw [beq_iff_eq.1 hc, literal_ok_iff.1 hword] at hblank
        exact ⟨_, ⟨_, hblank, .boolean false⟩, rfl⟩
      · exact (rejectType_ok_iff.1 hnext).elim
  · rintro ⟨_, ⟨start, hblank, hvalue⟩, rfl⟩
    rw [hvalue.boolean_text] at hblank
    cases value with
    | true =>
        exact bind_ok_iff.2 ⟨'t', _, takeToken_ok_iff.2 ⟨hblank, rfl⟩,
          bind_ok_iff.2 ⟨(), rest, literal_ok_iff.2 rfl, rfl⟩⟩
    | false =>
        exact bind_ok_iff.2 ⟨'f', _, takeToken_ok_iff.2 ⟨hblank, rfl⟩,
          bind_ok_iff.2 ⟨(), rest, literal_ok_iff.2 rfl, rfl⟩⟩

theorem decodeNull_ok_iff {result : Unit} :
    decodeNull text = .ok (result, rest) <-> Begins .null text rest := by
  constructor
  · intro h
    obtain ⟨c, after, htoken, hnext⟩ := bind_ok_iff.1 h
    obtain ⟨hblank, -⟩ := takeToken_ok_iff.1 htoken
    split at hnext
    · rename_i hc
      rw [beq_iff_eq.1 hc, literal_ok_iff.1 hnext] at hblank
      exact ⟨_, hblank, .null⟩
    · exact (rejectType_ok_iff.1 hnext).elim
  · rintro ⟨start, hblank, hvalue⟩
    cases hvalue
    exact bind_ok_iff.2 ⟨'n', _, takeToken_ok_iff.2 ⟨hblank, rfl⟩, literal_ok_iff.2 rfl⟩

theorem ofName?_eq_some_iff {name : Text} {format : ReportFormat} :
    ReportFormat.ofName? name = some format <-> name = format.name := by
  constructor
  · intro h
    have hname := List.find?_some h
    exact (beq_iff_eq.1 hname).symm
  · rintro rfl
    cases format <;> rfl

theorem decodeFormatName_ok_iff {format : ReportFormat} :
    decodeFormatName text = .ok (format, rest) <->
      exists body, Unescapes body format.name /\ text = body ++ '\x22' :: rest := by
  constructor
  · intro h
    obtain ⟨name, after, hname, hnext⟩ := bind_ok_iff.1 h
    obtain ⟨body, hbody, rfl⟩ := keptString_ok_iff.1 hname
    cases hformat : ReportFormat.ofName? name with
    | none =>
        rw [hformat] at hnext
        exact (throw_ok_iff.1 hnext).elim
    | some found =>
        rw [hformat] at hnext
        obtain ⟨rfl, rfl⟩ := pure_ok_iff.1 hnext
        rw [ofName?_eq_some_iff.1 hformat] at hbody
        exact ⟨body, hbody, rfl⟩
  · rintro ⟨body, hbody, rfl⟩
    refine bind_ok_iff.2 ⟨format.name, rest, keptString_of_unescapes hbody rest, ?_⟩
    rw [ofName?_eq_some_iff.2 rfl]
    rfl

theorem KeyRule.reject_ok_iff {first : Char} {value : α} :
    (rule.reject first : Decoder α) text = .ok (value, rest) <-> False := by
  cases rule with
  | key => exact throw_ok_iff
  | value expected => exact rejectType_ok_iff

/-- The name of a format in an object is a string under each rule. -/
theorem decodeFormatKey_ok_iff {format : ReportFormat} :
    decodeFormatKey rule text = .ok (format, rest) <->
      exists body, Unescapes body format.name /\
        IsBlank text ('\x22' :: (body ++ '\x22' :: rest)) := by
  constructor
  · intro h
    obtain ⟨c, after, htoken, hnext⟩ := bind_ok_iff.1 h
    obtain ⟨hblank, -⟩ := takeToken_ok_iff.1 htoken
    split at hnext
    · rename_i hc
      obtain ⟨body, hbody, rfl⟩ := decodeFormatName_ok_iff.1 hnext
      rw [beq_iff_eq.1 hc] at hblank
      exact ⟨body, hbody, hblank⟩
    · exact (KeyRule.reject_ok_iff.1 hnext).elim
  · rintro ⟨body, hbody, hblank⟩
    exact bind_ok_iff.2 ⟨'\x22', _, takeToken_ok_iff.2 ⟨hblank, rfl⟩,
      decodeFormatName_ok_iff.2 ⟨body, hbody, rfl⟩⟩

theorem decodeFormatObject_ok_iff {format : ReportFormat} :
    decodeFormatObject rule text = .ok (format, rest) <->
      exists key, Unescapes key format.name /\
        IsValue (.object [(key, .null)]) ('{' :: text) rest := by
  have hcolon : isJsonSpace ':' = false := rfl
  have hbrace : isJsonSpace '}' = false := rfl
  simp only [decodeFormatObject, bind_ok_iff, decodeFormatKey_ok_iff, expectToken_ok_iff hcolon,
    expectToken_ok_iff hbrace, decodeNull_ok_iff, pure_ok_iff]
  constructor
  · rintro ⟨_, after, ⟨key, hkey, hopen⟩, _, _, hmark, _, _, ⟨_, hblank, hnull⟩,
      _, _, hclose, rfl, rfl⟩
    exact ⟨key, hkey,
      .object ⟨after, hkey.isBody, hopen, hmark⟩ hblank hnull (.close hclose)⟩
  · rintro ⟨key, hkey, hvalue⟩
    cases hvalue with
    | object hmember hblank hnull hmembers =>
        obtain ⟨after, -, hopen, hmark⟩ := hmember
        cases hmembers with
        | close hclose =>
            exact ⟨format, after, ⟨key, hkey, hopen⟩, (), _, hmark, (), _,
              ⟨_, hblank, hnull⟩, (), rest, hclose, rfl, rfl⟩

theorem decodeFormat_takes : Takes (decodeFormat rule) MeansFormat := by
  intro text format rest
  constructor
  · intro h
    obtain ⟨c, after, htoken, hnext⟩ := bind_ok_iff.1 h
    obtain ⟨hblank, -⟩ := takeToken_ok_iff.1 htoken
    split at hnext
    · rename_i hc
      obtain ⟨body, hbody, rfl⟩ := decodeFormatName_ok_iff.1 hnext
      rw [beq_iff_eq.1 hc] at hblank
      exact ⟨_, ⟨_, hblank, .string hbody.isBody⟩, .name hbody⟩
    · split at hnext
      · rename_i hc
        obtain ⟨key, hkey, hvalue⟩ := decodeFormatObject_ok_iff.1 hnext
        rw [beq_iff_eq.1 hc] at hblank
        exact ⟨_, ⟨_, hblank, hvalue⟩, .member hkey⟩
      · exact (throw_ok_iff.1 hnext).elim
  · rintro ⟨document, ⟨start, hblank, hvalue⟩, hbody | hkey⟩
    · obtain ⟨-, rfl⟩ := hvalue.string_text
      exact bind_ok_iff.2 ⟨'\x22', _, takeToken_ok_iff.2 ⟨hblank, rfl⟩,
        decodeFormatName_ok_iff.2 ⟨_, hbody, rfl⟩⟩
    · obtain ⟨after, rfl⟩ := hvalue.object_text
      exact bind_ok_iff.2 ⟨'{', _, takeToken_ok_iff.2 ⟨hblank, rfl⟩,
        decodeFormatObject_ok_iff.2 ⟨_, hkey, hvalue⟩⟩

/-! ## Settings and fields -/

theorem isSetting_iff {means : RawJson -> α -> Prop} {missing value : α}
    {found : Option RawJson} :
    IsSetting means missing found value <->
      exists last, Option.Rel means found last /\ value = last.getD missing := by
  cases found with
  | none =>
      constructor
      · rintro rfl
        exact ⟨none, .none, rfl⟩
      · rintro ⟨_, hrel, rfl⟩
        cases hrel
        rfl
  | some document =>
      constructor
      · intro hmeans
        exact ⟨some value, .some hmeans, rfl⟩
      · rintro ⟨_, hrel, rfl⟩
        cases hrel with
        | some hmeans => exact hmeans

/-- Documents for the settings, as far as they are given, have meanings that make up the fields. -/
structure Reads (format trace denyTrailing : Option RawJson) (fields : Fields) : Prop where
  format : Option.Rel MeansFormat format fields.format
  trace : Option.Rel MeansBoolean trace fields.trace
  denyTrailing : Option.Rel MeansBoolean denyTrailing fields.denyTrailing

theorem sets_iff {format trace denyTrailing : Option RawJson} {config : Config} :
    Sets format trace denyTrailing config <->
      exists fields, Reads format trace denyTrailing fields /\ config = fields.toConfig := by
  constructor
  · intro h
    obtain ⟨lastFormat, hformat, hformat'⟩ := isSetting_iff.1 h.format
    obtain ⟨lastTrace, htrace, htrace'⟩ := isSetting_iff.1 h.trace
    obtain ⟨lastDeny, hdeny, hdeny'⟩ := isSetting_iff.1 h.denyTrailing
    refine ⟨⟨lastFormat, lastTrace, lastDeny⟩, ⟨hformat, htrace, hdeny⟩, ?_⟩
    obtain ⟨_, _, _⟩ := config
    exact congr (congr (congrArg Config.mk hformat') htrace') hdeny'
  · rintro ⟨fields, hreads, rfl⟩
    exact ⟨isSetting_iff.2 ⟨_, hreads.format, rfl⟩, isSetting_iff.2 ⟨_, hreads.trace, rfl⟩,
      isSetting_iff.2 ⟨_, hreads.denyTrailing, rfl⟩⟩

end TranslationKeys.Config

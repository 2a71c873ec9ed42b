import TranslationKeys.Proofs.Skipping

/-!
# One reading of each text

A text is at most one document, whatever blank characters it holds.  The first
character of a value tells what it is.  A number is as long as it can be, and the
text that is left behind each form is the same in all readings.
-/

namespace TranslationKeys.RawJson

open Lexeme (Avoids)
open Decoder (continuesNumber isJsonSpace avoids_cons)

/-! ## Kinds of values -/

inductive Kind where
  | null
  | boolean
  | number
  | string
  | array
  | object
  deriving DecidableEq

def kind : RawJson -> Kind
  | .null => .null
  | .boolean _ => .boolean
  | .number _ => .number
  | .string _ => .string
  | .array _ => .array
  | .object _ => .object

/-- What a value is that begins with some character. -/
def kindOf (c : Char) : Kind :=
  if c = 'n' then .null
  else if c = 't' \/ c = 'f' then .boolean
  else if c = '\x22' then .string
  else if c = '[' then .array
  else if c = '{' then .object
  else .number

theorem kindOf_isDigit {c : Char} (h : c.isDigit = true) : kindOf c = .number := by
  have hne (other : Char) (hother : other.isDigit = false) : c ≠ other :=
    Lexeme.ne_of_member h hother
  rw [kindOf, if_neg (hne 'n' rfl), if_neg (not_or.2 ⟨hne 't' rfl, hne 'f' rfl⟩),
    if_neg (hne '\x22' rfl), if_neg (hne '[' rfl), if_neg (hne '{' rfl)]

theorem IsValue.exists_kind {document : RawJson} {text rest : Text}
    (h : IsValue document text rest) :
    exists c more, text = c :: more /\ document.kind = kindOf c := by
  cases h with
  | null => exact ⟨_, _, rfl, rfl⟩
  | boolean value => cases value <;> exact ⟨_, _, rfl, rfl⟩
  | number hnumber =>
      obtain ⟨first, more, rfl, rfl | hdigit⟩ := hnumber.eq_cons
      · exact ⟨_, _, rfl, rfl⟩
      · exact ⟨_, _, rfl, (kindOf_isDigit hdigit).symm⟩
  | string => exact ⟨_, _, rfl, rfl⟩
  | emptyArray => exact ⟨_, _, rfl, rfl⟩
  | array => exact ⟨_, _, rfl, rfl⟩
  | emptyObject => exact ⟨_, _, rfl, rfl⟩
  | object => exact ⟨_, _, rfl, rfl⟩

theorem IsValue.kind_eq {first second : RawJson} {text rest other : Text}
    (hfirst : IsValue first text rest) (hsecond : IsValue second text other) :
    first.kind = second.kind := by
  obtain ⟨c, more, rfl, hc⟩ := hfirst.exists_kind
  obtain ⟨d, behind, htext, hd⟩ := hsecond.exists_kind
  cases htext
  exact hc.trans hd.symm

/-! ## Lexemes -/

theorem IsBlank.unique {text first second : Text} (hfirst : IsBlank text first)
    (hsecond : IsBlank text second) (havoids : Avoids isJsonSpace first)
    (havoids' : Avoids isJsonSpace second) : first = second :=
  ((isBlank_iff_dropWhile_eq havoids).1 hfirst).symm.trans
    ((isBlank_iff_dropWhile_eq havoids').1 hsecond)

theorem IsBlank.mark_unique {text rest other : Text} {c d : Char}
    (hfirst : IsBlank text (c :: rest)) (hsecond : IsBlank text (d :: other))
    (hc : isJsonSpace c = false) (hd : isJsonSpace d = false) : c = d /\ rest = other :=
  List.cons.inj (hfirst.unique hsecond (avoids_cons.2 hc) (avoids_cons.2 hd))

theorem IsNumber.unique {number other rest behind : Text} (hnumber : IsNumber number)
    (hother : IsNumber other) (hrest : Avoids continuesNumber rest)
    (hbehind : Avoids continuesNumber behind) (h : number ++ rest = other ++ behind) :
    number = other /\ rest = behind := by
  obtain ⟨first, more, rfl, -⟩ := hnumber.eq_cons
  obtain ⟨numeral, hfirst⟩ := Decoder.numeral_of_number .malformed hnumber hrest rfl
  obtain ⟨numeral', hsecond⟩ := Decoder.numeral_of_number .malformed hother hbehind h
  cases hfirst.symm.trans hsecond
  exact ⟨List.append_cancel_right h, rfl⟩

theorem IsBody.unique {body other rest behind : Text} (hbody : IsBody body)
    (hother : IsBody other) (h : body ++ '\x22' :: rest = other ++ '\x22' :: behind) :
    body = other /\ rest = behind := by
  have hfirst := Decoder.skippedString_of_isBody hbody rest
  have hsecond := Decoder.skippedString_of_isBody hother behind
  cases hfirst.symm.trans (h ▸ hsecond)
  exact ⟨List.append_cancel_right h, rfl⟩

theorem Unescapes.unique {body value other : Text} (h : Unescapes body value)
    (hother : Unescapes body other) : value = other := by
  have hvalue := Decoder.keptString_of_unescapes h []
  cases hvalue.symm.trans (Decoder.keptString_of_unescapes hother [])
  rfl

theorem IsKey.unique {key other text rest behind : Text} (hkey : IsKey key text rest)
    (hother : IsKey other text behind) : key = other /\ rest = behind := by
  obtain ⟨after, hbody, hquote, hcolon⟩ := hkey
  obtain ⟨after', hbody', hquote', hcolon'⟩ := hother
  obtain ⟨rfl, rfl⟩ := hbody.unique hbody' (hquote.mark_unique hquote' rfl rfl).2
  exact ⟨rfl, (hcolon.mark_unique hcolon' rfl rfl).2⟩

/-! ## Values -/

theorem AreMoreItems.ends {items : List RawJson} {text rest : Text}
    (h : AreMoreItems items text rest) : Avoids continuesNumber text := by
  have hcompletes : Decoder.Completes .array text rest := ⟨items, h⟩
  exact hcompletes.ends

theorem AreMoreMembers.ends {members : List (Text × RawJson)} {text rest : Text}
    (h : AreMoreMembers members text rest) : Avoids continuesNumber text := by
  have hcompletes : Decoder.Completes .object text rest := ⟨members, h⟩
  exact hcompletes.ends

theorem IsBlank.ends {text : Text} (h : IsBlank text []) : Avoids continuesNumber text := by
  obtain ⟨blank, hblank, rfl⟩ := h
  rw [List.append_nil]
  intro c hc
  exact Decoder.continuesNumber_apart (Or.inl (hblank c (List.mem_of_mem_head? hc)))

theorem IsValue.boolean_text {value : Bool} {text rest : Text}
    (h : IsValue (.boolean value) text rest) : text = booleanWord value ++ rest := by
  cases h
  rfl

theorem IsValue.number_text {number text rest : Text} (h : IsValue (.number number) text rest) :
    IsNumber number /\ text = number ++ rest := by
  cases h with
  | number hnumber => exact ⟨hnumber, rfl⟩

theorem IsValue.string_text {body text rest : Text} (h : IsValue (.string body) text rest) :
    IsBody body /\ text = '\x22' :: (body ++ '\x22' :: rest) := by
  cases h with
  | string hbody => exact ⟨hbody, rfl⟩

theorem IsValue.array_text {items : List RawJson} {text rest : Text}
    (h : IsValue (.array items) text rest) : exists after, text = '[' :: after := by
  cases h <;> exact ⟨_, rfl⟩

theorem IsValue.object_text {members : List (Text × RawJson)} {text rest : Text}
    (h : IsValue (.object members) text rest) : exists after, text = '{' :: after := by
  cases h <;> exact ⟨_, rfl⟩

theorem IsKey.not_closing {key text rest behind : Text} (h : IsKey key text rest) :
    ¬ IsBlank text ('}' :: behind) := by
  obtain ⟨after, -, hquote, -⟩ := h
  intro hend
  exact absurd (hquote.mark_unique hend rfl rfl).1 (by decide)

theorem IsValue.not_closing {document : RawJson} {text start rest behind : Text}
    (h : IsValue document start rest) (hblank : IsBlank text start) :
    ¬ IsBlank text (']' :: behind) := by
  intro hend
  obtain ⟨c, more, rfl, hc⟩ := h.eq_cons
  exact hc.apart.2.1 (hblank.mark_unique hend hc.apart.1 rfl).1

mutual

/-- A text begins with at most one value that does not go on as a number behind it. -/
theorem IsValue.unique :
    forall {document : RawJson} {text rest : Text}, IsValue document text rest ->
      forall {other : RawJson} {behind : Text}, IsValue other text behind ->
        Avoids continuesNumber rest -> Avoids continuesNumber behind ->
          document = other /\ rest = behind
  | _, _, _, .null, other, behind, hother => fun _ _ => by
      have hkind := IsValue.null.kind_eq hother
      cases other with
      | null =>
          cases hother
          exact ⟨rfl, rfl⟩
      | _ => cases hkind
  | _, _, _, .boolean value, other, behind, hother => fun _ _ => by
      have hkind := (IsValue.boolean value).kind_eq hother
      cases other with
      | boolean value' =>
          have htext := hother.boolean_text
          cases value <;> cases value' <;> cases htext
          · exact ⟨rfl, rfl⟩
          · exact ⟨rfl, rfl⟩
      | _ => cases hkind
  | _, _, _, .number hnumber, other, behind, hother => fun hrest hbehind => by
      have hkind := (IsValue.number hnumber).kind_eq hother
      cases other with
      | number number' =>
          obtain ⟨hnumber', htext⟩ := hother.number_text
          obtain ⟨rfl, rfl⟩ := hnumber.unique hnumber' hrest hbehind htext
          exact ⟨rfl, rfl⟩
      | _ => cases hkind
  | _, _, _, .string hbody, other, behind, hother => fun _ _ => by
      have hkind := (IsValue.string hbody).kind_eq hother
      cases other with
      | string body' =>
          obtain ⟨hbody', htext⟩ := hother.string_text
          obtain ⟨rfl, rfl⟩ := hbody.unique hbody' (List.cons.inj htext).2
          exact ⟨rfl, rfl⟩
      | _ => cases hkind
  | _, _, _, .emptyArray hend, other, behind, hother => fun _ _ => by
      have hkind := (IsValue.emptyArray hend).kind_eq hother
      cases other with
      | array items =>
          cases hother with
          | emptyArray hend' => exact ⟨rfl, (hend.mark_unique hend' rfl rfl).2⟩
          | array hblank hitem _ => exact absurd hend (hitem.not_closing hblank)
      | _ => cases hkind
  | _, _, _, .array hblank hitem hitems, other, behind, hother => fun _ _ => by
      have hkind := (IsValue.array hblank hitem hitems).kind_eq hother
      cases other with
      | array items =>
          cases hother with
          | emptyArray hend => exact absurd hend (hitem.not_closing hblank)
          | array hblank' hitem' hitems' =>
              cases hblank.unique hblank' hitem.avoids_space hitem'.avoids_space
              obtain ⟨rfl, rfl⟩ := hitem.unique hitem' hitems.ends hitems'.ends
              obtain ⟨rfl, rfl⟩ := hitems.unique hitems'
              exact ⟨rfl, rfl⟩
      | _ => cases hkind
  | _, _, _, .emptyObject hend, other, behind, hother => fun _ _ => by
      have hkind := (IsValue.emptyObject hend).kind_eq hother
      cases other with
      | object members =>
          cases hother with
          | emptyObject hend' => exact ⟨rfl, (hend.mark_unique hend' rfl rfl).2⟩
          | object hkey _ _ _ => exact absurd hend hkey.not_closing
      | _ => cases hkind
  | _, _, _, .object hkey hblank hvalue hmembers, other, behind, hother => fun _ _ => by
      have hkind := (IsValue.object hkey hblank hvalue hmembers).kind_eq hother
      cases other with
      | object members =>
          cases hother with
          | emptyObject hend => exact absurd hend hkey.not_closing
          | object hkey' hblank' hvalue' hmembers' =>
              obtain ⟨rfl, rfl⟩ := hkey.unique hkey'
              cases hblank.unique hblank' hvalue.avoids_space hvalue'.avoids_space
              obtain ⟨rfl, rfl⟩ := hvalue.unique hvalue' hmembers.ends hmembers'.ends
              obtain ⟨rfl, rfl⟩ := hmembers.unique hmembers'
              exact ⟨rfl, rfl⟩
      | _ => cases hkind

theorem AreMoreItems.unique :
    forall {items : List RawJson} {text rest : Text}, AreMoreItems items text rest ->
      forall {others : List RawJson} {behind : Text}, AreMoreItems others text behind ->
        items = others /\ rest = behind
  | _, _, _, .close hend, _, _, .close hend' =>
      ⟨rfl, (hend.mark_unique hend' rfl rfl).2⟩
  | _, _, _, .close hend, _, _, .comma hcomma _ _ _ =>
      absurd (hend.mark_unique hcomma rfl rfl).1 (by decide)
  | _, _, _, .comma hcomma _ _ _, _, _, .close hend =>
      absurd (hcomma.mark_unique hend rfl rfl).1 (by decide)
  | _, _, _, .comma hcomma hblank hitem hitems, _, _, .comma hcomma' hblank' hitem' hitems' => by
      obtain ⟨-, rfl⟩ := hcomma.mark_unique hcomma' rfl rfl
      cases hblank.unique hblank' hitem.avoids_space hitem'.avoids_space
      obtain ⟨rfl, rfl⟩ := hitem.unique hitem' hitems.ends hitems'.ends
      obtain ⟨rfl, rfl⟩ := hitems.unique hitems'
      exact ⟨rfl, rfl⟩

theorem AreMoreMembers.unique :
    forall {members : List (Text × RawJson)} {text rest : Text},
      AreMoreMembers members text rest ->
      forall {others : List (Text × RawJson)} {behind : Text},
        AreMoreMembers others text behind -> members = others /\ rest = behind
  | _, _, _, .close hend, _, _, .close hend' =>
      ⟨rfl, (hend.mark_unique hend' rfl rfl).2⟩
  | _, _, _, .close hend, _, _, .comma hcomma _ _ _ _ =>
      absurd (hend.mark_unique hcomma rfl rfl).1 (by decide)
  | _, _, _, .comma hcomma _ _ _ _, _, _, .close hend =>
      absurd (hcomma.mark_unique hend rfl rfl).1 (by decide)
  | _, _, _, .comma hcomma hkey hblank hvalue hmembers, _, _,
      .comma hcomma' hkey' hblank' hvalue' hmembers' => by
      obtain ⟨-, rfl⟩ := hcomma.mark_unique hcomma' rfl rfl
      obtain ⟨rfl, rfl⟩ := hkey.unique hkey'
      cases hblank.unique hblank' hvalue.avoids_space hvalue'.avoids_space
      obtain ⟨rfl, rfl⟩ := hvalue.unique hvalue' hmembers.ends hmembers'.ends
      obtain ⟨rfl, rfl⟩ := hmembers.unique hmembers'
      exact ⟨rfl, rfl⟩

end

/-- A text is at most one document. -/
theorem IsDocument.unique {document other : RawJson} {text : Text}
    (h : IsDocument document text) (hother : IsDocument other text) : document = other := by
  obtain ⟨rest, ⟨start, hstart, hvalue⟩, hend⟩ := h
  obtain ⟨rest', ⟨start', hstart', hvalue'⟩, hend'⟩ := hother
  cases hstart.unique hstart' hvalue.avoids_space hvalue'.avoids_space
  exact (hvalue.unique hvalue' hend.ends hend'.ends).1

end TranslationKeys.RawJson

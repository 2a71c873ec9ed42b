import Mathlib.Data.List.Dedup
import Mathlib.Data.List.Induction
import TranslationKeys.Proofs.RoundTrip

/-!
# Entries that are given again

A block is filled entry by entry, and a name that is given again loses its earlier
entry and moves to the end.  What the block holds in the end is read off the whole
sequence that was given: the last entry of each name, in the order of the
sequence.  It makes no difference which entries were collected at once and which
were inserted one by one.
-/

namespace TranslationKeys

/-! ## The last entry of each name -/

/-- The entries whose name is not given again after them, in their order. -/
def lastOfEachName : List (Text × Value) -> List (Text × Value)
  | [] => []
  | entry :: later =>
      if entry.1 ∈ later.map Prod.fst then lastOfEachName later
      else entry :: lastOfEachName later

/-- The value that a name was given last, if it was given one. -/
def lastValue? (name : Text) (given : List (Text × Value)) : Option Value :=
  (given.reverse.find? fun entry => entry.1 = name).map Prod.snd

theorem names_lastOfEachName (given : List (Text × Value)) :
    (lastOfEachName given).map Prod.fst = (given.map Prod.fst).dedup := by
  fun_induction lastOfEachName given with
  | case1 => rfl
  | case2 entry later hagain ih => rw [ih, List.map_cons, List.dedup_cons_of_mem hagain]
  | case3 entry later hlast ih =>
      rw [List.map_cons, ih, List.map_cons, List.dedup_cons_of_notMem hlast]

/-- One more entry takes the place of the earlier one of its name. -/
theorem lastOfEachName_concat (given : List (Text × Value)) (entry : Text × Value) :
    lastOfEachName (given ++ [entry]) =
      (lastOfEachName given).filter (fun other => other.1 ≠ entry.1) ++ [entry] := by
  induction given with
  | nil => simp [lastOfEachName]
  | cons first later ih =>
      by_cases hagain : first.1 ∈ later.map Prod.fst
      · have hlater : first.1 ∈ (later ++ [entry]).map Prod.fst := by
          rw [List.map_append]
          exact List.mem_append_left _ hagain
        rw [List.cons_append, lastOfEachName, if_pos hlater, ih, lastOfEachName, if_pos hagain]
      · by_cases hname : first.1 = entry.1
        · have hlater : first.1 ∈ (later ++ [entry]).map Prod.fst := by simp [hname]
          rw [List.cons_append, lastOfEachName, if_pos hlater, ih, lastOfEachName,
            if_neg hagain, List.filter_cons_of_neg (by simp [hname])]
        · have hlater : first.1 ∉ (later ++ [entry]).map Prod.fst := by
            rw [List.map_append, List.mem_append, List.map_singleton, List.mem_singleton]
            exact not_or.2 ⟨hagain, hname⟩
          rw [List.cons_append, lastOfEachName, if_neg hlater, ih, lastOfEachName,
            if_neg hagain, List.filter_cons_of_pos (by simpa using hname), List.cons_append]

/-- Looking for a name among the last entries finds what it was given last. -/
theorem find?_lastOfEachName (name : Text) (given : List (Text × Value)) :
    (lastOfEachName given).find? (fun entry => entry.1 = name) =
      given.reverse.find? fun entry => entry.1 = name := by
  fun_induction lastOfEachName given with
  | case1 => rfl
  | case2 entry later hagain ih =>
      rw [ih, List.reverse_cons, List.find?_append]
      by_cases hname : entry.1 = name
      · -- The name is given again, so it is found before this entry is looked at.
        obtain ⟨other, hother, hsame⟩ := List.mem_map.1 hagain
        have hfound : (later.reverse.find? fun entry => entry.1 = name).isSome := by
          rw [List.find?_isSome]
          exact ⟨other, List.mem_reverse.2 hother, by simp [hsame, hname]⟩
        rw [Option.or_of_isSome hfound]
      · simp [hname]
  | case3 entry later hlast ih =>
      rw [List.reverse_cons, List.find?_append]
      by_cases hname : entry.1 = name
      · have hnone : (later.reverse.find? fun entry => entry.1 = name) = none := by
          rw [List.find?_eq_none]
          intro other hother hsame
          refine hlast (List.mem_map.2 ⟨other, List.mem_reverse.1 hother, ?_⟩)
          rw [hname]
          exact of_decide_eq_true hsame
        rw [hnone, List.find?_cons_of_pos (by simpa using hname)]
        simp [hname]
      · rw [List.find?_cons_of_neg (by simpa using hname), ih]
        simp [hname]

/-! ## Blocks that are filled -/

/-- Where names differ, the first entry of a name is the only one. -/
theorem eraseP_eq_filter_of_nodup {entries : List (Text × Value)}
    (h : (entries.map Prod.fst).Nodup) (name : Text) :
    entries.eraseP (fun entry => entry.1 = name) =
      entries.filter fun entry => entry.1 ≠ name := by
  induction entries with
  | nil => rfl
  | cons first rest ih =>
      obtain ⟨hfirst, hrest⟩ := List.nodup_cons.1 h
      by_cases hname : first.1 = name
      · rw [List.eraseP_cons_of_pos (by simpa using hname),
          List.filter_cons_of_neg (by simpa using hname), List.filter_eq_self.2]
        intro entry hentry
        have hother : entry.1 ≠ name := by
          rintro rfl
          exact hfirst (hname ▸ List.mem_map_of_mem hentry)
        simpa using hother
      · rw [List.eraseP_cons_of_neg (by simpa using hname),
          List.filter_cons_of_pos (by simpa using hname), ih hrest]

namespace Params

theorem find?_eq_find?_toList (name : Text) (params : Params) :
    params.find? name =
      (params.toList.find? fun entry => entry.1 = name).map Prod.snd := by
  fun_induction find? name params with
  | case1 => rfl
  | case2 value rest => simp [toList]
  | case3 other value rest hother ih => simp [toList, hother, ih]

theorem insertAll_append (params : Params) (first second : List (Text × Value)) :
    params.insertAll (first ++ second) = (params.insertAll first).insertAll second :=
  List.foldl_append

theorem insertAll_ofList (collected inserted : List (Text × Value)) :
    (ofList collected).insertAll inserted = ofList (collected ++ inserted) := by
  rw [← insertAll_nil_params, ← insertAll_append, insertAll_nil_params]

theorem nodup_ofList (given : List (Text × Value)) : (ofList given).names.Nodup := by
  rw [← insertAll_nil_params]
  exact nodup_insertAll (by simp [names, toList]) given

/-- A block that is filled holds the last entry of each name. -/
theorem toList_ofList_eq_lastOfEachName (given : List (Text × Value)) :
    (ofList given).toList = lastOfEachName given := by
  induction given using List.reverseRecOn with
  | nil => rfl
  | append_singleton given entry ih =>
      have hnames : ((ofList given).toList.map Prod.fst).Nodup := nodup_ofList given
      have hinsert : ofList (given ++ [entry]) = (ofList given).insert entry.1 entry.2 := by
        rw [← insertAll_ofList]
        rfl
      rw [hinsert, toList_insert, eraseP_eq_filter_of_nodup hnames, ih,
        lastOfEachName_concat]

/-! ## What is returned -/

/-- Insert entries in order: what each name had before, and the parameters in the end. -/
def exchangeAll (params : Params) : List (Text × Value) -> List (Option Value) × Params
  | [] => ([], params)
  | (name, value) :: later =>
      let (previous, next) := params.exchange name value
      let (others, final) := next.exchangeAll later
      (previous :: others, final)

theorem exchangeAll_cons (params : Params) (name : Text) (value : Value)
    (later : List (Text × Value)) :
    params.exchangeAll ((name, value) :: later) =
      (params.find? name :: ((params.insert name value).exchangeAll later).1,
        ((params.insert name value).exchangeAll later).2) := by
  rw [← exchange_fst params name value]
  rfl

theorem exchangeAll_snd (params : Params) (inserted : List (Text × Value)) :
    (params.exchangeAll inserted).2 = params.insertAll inserted := by
  induction inserted generalizing params with
  | nil => rfl
  | cons entry later ih =>
      obtain ⟨name, value⟩ := entry
      rw [exchangeAll_cons, ih, insertAll_cons]

/-- Each insertion returns what its name had right before it. -/
theorem exchangeAll_fst (params : Params) (inserted : List (Text × Value)) :
    (params.exchangeAll inserted).1 =
      inserted.mapIdx fun index entry =>
        (params.exchangeAll (inserted.take index)).2.find? entry.1 := by
  induction inserted generalizing params with
  | nil => rfl
  | cons entry later ih =>
      obtain ⟨name, value⟩ := entry
      rw [exchangeAll_cons, ih, List.mapIdx_cons]
      simp only [List.take_succ_cons, exchangeAll_cons]
      rfl

/--
However a block is filled, whether entries are collected first and then others
inserted, or only one of both, it holds the last entry of each name in the order
in which they were given.  So its names differ and are as many as there are
different ones, and a name has the value that it was given last.  Each insertion
returns the value that its name had right before.  Collecting the entries of the
block once more changes nothing.
-/
theorem filled_holds_last_of_each_name (collected inserted : List (Text × Value)) :
    let given := collected ++ inserted
    let filled := (ofList collected).exchangeAll inserted
    filled.2.toList = lastOfEachName given /\
      filled.2.names.Nodup /\
      (forall name, filled.2.find? name = lastValue? name given) /\
      filled.2.size = (given.map Prod.fst).dedup.length /\
      filled.1 = inserted.mapIdx (fun index entry =>
        ((ofList collected).exchangeAll (inserted.take index)).2.find? entry.1) /\
      ofList filled.2.toList = filled.2 := by
  intro given filled
  have hfilled : filled.2 = ofList given := by
    rw [exchangeAll_snd, insertAll_ofList]
  have hentries : filled.2.toList = lastOfEachName given := by
    rw [hfilled, toList_ofList_eq_lastOfEachName]
  have hnames : filled.2.names.Nodup := by
    rw [hfilled]
    exact nodup_ofList given
  refine ⟨hentries, hnames, ?_, ?_, exchangeAll_fst _ _, ofList_toList hnames⟩
  · intro name
    rw [find?_eq_find?_toList, hentries, find?_lastOfEachName, lastValue?]
  · rw [← length_toList, hentries, ← names_lastOfEachName, List.length_map]

/-- A name that comes back loses its first value and moves behind the other. -/
example :
    (nil.exchangeAll [(['k'], .literal ['1']), (['o'], .literal ['x']),
      (['k'], .literal ['2'])]) =
        ([none, none, some (.literal ['1'])],
          .cons ['o'] (.literal ['x']) (.cons ['k'] (.literal ['2']) .nil)) := by
  decide

end Params

end TranslationKeys

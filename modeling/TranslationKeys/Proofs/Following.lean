import Mathlib.Data.List.Basic
import TranslationKeys.Files.Basic
import TranslationKeys.Proofs.Segments

/-!
# Following paths

Following a path is a walk along its segments, for every path that is taken at
all.  A walk along a path and a name that is joined to it is a walk along the stem
of the path and one step more.  What is added to the files where nothing stood
leaves every walk as it was that led somewhere.
-/

namespace TranslationKeys

/-! ## Locations of plain names -/

/-- A name that leads down to what bears it when a path is followed. -/
structure IsPlainName (name : Text) : Prop where
  nonempty : name ≠ []
  notDot : name ≠ ['.']
  notDots : name ≠ ['.', '.']
  noSlash : '/' ∉ name

/-- The stem of the path of plain names is these names. -/
theorem Location.stem_toPath {location : Location}
    (hplain : ∀ name ∈ location, IsPlainName name) : location.toPath.stem = location := by
  have hlast : location.getLast? ≠ some [] := fun hlast =>
    (hplain [] (List.mem_of_getLast? hlast)).nonempty rfl
  have hstem := Path.ofSegments_stem (fun name hname => (hplain name hname).noSlash) hlast
    (fun habsolute : true = false => by cases habsolute)
  exact hstem.2

namespace Files

variable {files after : Files} {base here place : Location} {path : Path} {name : Text}

/-! ## Steps of a walk -/

/-- What one segment does depends on nothing that follows it. -/
theorem walk_step (files : Files) (here : Location) (segment : Text) :
    (exists error, forall rest, files.walk here (segment :: rest) = .error error) \/
      (files.get? here = some .directory /\
        exists next, forall rest, files.walk here (segment :: rest) = files.walk next rest) := by
  cases hentry : files.get? here with
  | none => exact Or.inl ⟨.notFound, fun rest => by rw [walk, hentry]⟩
  | some entry =>
      cases entry with
      | file content => exact Or.inl ⟨.notADirectory, fun rest => by rw [walk, hentry]⟩
      | directory =>
          by_cases hsame : (segment == [] || segment == ['.']) = true
          · refine Or.inr ⟨rfl, here, fun rest => ?_⟩
            rw [walk, hentry]
            simp only [hsame, if_true]
          · by_cases hup : (segment == ['.', '.']) = true
            · refine Or.inr ⟨rfl, here.dropLast, fun rest => ?_⟩
              rw [walk, hentry]
              simp only [hsame, hup, if_true]
              rfl
            · by_cases hlong : Text.byteLength segment > longestName
              · refine Or.inl ⟨.nameTooLong, fun rest => ?_⟩
                rw [walk, hentry]
                simp only [hsame, hup, hlong, if_true]
                rfl
              · refine Or.inr ⟨rfl, here ++ [segment], fun rest => ?_⟩
                rw [walk, hentry]
                simp only [hsame, hup, hlong, if_false]
                rfl

/-- A walk that gets past its first segment. -/
theorem walk_cons_ok {segment : Text} {rest : List Text}
    (h : files.walk here (segment :: rest) = .ok place) :
    files.get? here = some .directory /\
      exists next, files.walk next rest = .ok place /\
        forall other, files.walk here (segment :: other) = files.walk next other := by
  rcases walk_step files here segment with ⟨error, hstep⟩ | ⟨hdirectory, next, hstep⟩
  · rw [hstep] at h
    cases h
  · exact ⟨hdirectory, next, (hstep rest).symm.trans h, hstep⟩

theorem isSome_of_walk {segments : List Text} (h : files.walk here segments = .ok place) :
    (files.get? place).isSome = true := by
  induction segments generalizing here with
  | nil =>
      rw [walk] at h
      split at h
      · rename_i hsome
        cases h
        exact hsome
      · cases h
  | cons segment rest ih =>
      obtain ⟨-, next, hnext, -⟩ := walk_cons_ok h
      exact ih hnext

/-- A walk goes on from the place that its first part leads to. -/
theorem walk_append {front : List Text} (h : files.walk here front = .ok place)
    (rest : List Text) : files.walk here (front ++ rest) = files.walk place rest := by
  induction front generalizing here with
  | nil =>
      rw [walk] at h
      split at h
      · cases h
        rfl
      · cases h
  | cons segment front ih =>
      obtain ⟨-, next, hnext, hstep⟩ := walk_cons_ok h
      rw [List.cons_append, hstep, ih hnext]

theorem walk_nil_ok_iff :
    files.walk here [] = .ok place <-> place = here /\ (files.get? here).isSome = true := by
  rw [walk]
  split
  · rename_i hsome
    simp [hsome, eq_comm]
  · rename_i hnone
    simp [hnone]

theorem walk_append_ok_iff {front rest : List Text} :
    files.walk here (front ++ rest) = .ok place <->
      exists middle, files.walk here front = .ok middle /\ files.walk middle rest = .ok place := by
  constructor
  · intro h
    induction front generalizing here with
    | nil =>
        have hsome : (files.get? here).isSome = true := by
          cases rest with
          | nil => exact (walk_nil_ok_iff.1 h).2
          | cons segment more =>
              rw [(walk_cons_ok h).1]
              rfl
        exact ⟨here, walk_nil_ok_iff.2 ⟨rfl, hsome⟩, h⟩
    | cons segment front ih =>
        obtain ⟨-, next, hnext, hstep⟩ := walk_cons_ok h
        obtain ⟨middle, hmiddle, hrest⟩ := ih hnext
        exact ⟨middle, (hstep front).trans hmiddle, hrest⟩
  · rintro ⟨middle, hmiddle, hrest⟩
    rw [walk_append hmiddle, hrest]

/-- Segments that name nothing lead nowhere else. -/
theorem walk_nameless {dropped rest : List Text}
    (hdropped : ∀ segment ∈ dropped, Path.IsNameless segment)
    (h : files.walk here (dropped ++ rest) = .ok place) : files.walk here rest = .ok place := by
  induction dropped with
  | nil => exact h
  | cons segment dropped ih =>
      rw [List.forall_mem_cons] at hdropped
      have hdirectory := (walk_cons_ok h).1
      apply ih hdropped.2
      rw [List.cons_append, walk, hdirectory] at h
      rcases hdropped.1 with rfl | rfl <;> exact h

/-- An empty segment at the end of a path only asks for a directory. -/
theorem walk_segments_ok_iff (h : files.get? place = some .directory) :
    files.walk here path.segments = .ok place <-> files.walk here path.stem = .ok place := by
  rcases path.segments_eq_stem_or with hsame | hsame <;> rw [hsame]
  rw [walk_append_ok_iff]
  constructor
  · rintro ⟨middle, hmiddle, hlast⟩
    have hnameless : ∀ segment ∈ [([] : Text)], Path.IsNameless segment := by
      rw [List.forall_mem_singleton]
      exact Or.inl rfl
    have hend : files.walk middle [] = .ok place := walk_nameless hnameless hlast
    rw [(walk_nil_ok_iff.1 hend).1, hmiddle]
  · intro hstem
    refine ⟨place, hstem, ?_⟩
    rw [walk, h]
    exact walk_nil_ok_iff.2 ⟨rfl, by rw [h]; rfl⟩

/-- Plain names lead down to themselves. -/
theorem walk_plain {names : List Text} (hplain : ∀ name ∈ names, IsPlainName name)
    (h : files.walk here names = .ok place) : place = here ++ names := by
  induction names generalizing here with
  | nil =>
      rw [walk] at h
      split at h
      · cases h
        rw [List.append_nil]
      · cases h
  | cons name rest ih =>
      have hname := hplain name List.mem_cons_self
      have hdirectory := (walk_cons_ok h).1
      rw [walk, hdirectory] at h
      simp only [beq_iff_eq, hname.nonempty, hname.notDot, hname.notDots, or_self, if_false,
        Bool.or_eq_true] at h
      split at h
      · cases h
      · rw [ih (fun other hother => hplain other (List.mem_cons_of_mem _ hother)) h,
          List.append_assoc, List.singleton_append]

/-- A walk along one name finds nothing only in a directory that holds nothing so named. -/
theorem walk_name_notFound {name : Text} (hname : IsPlainName name)
    (hhere : (files.get? here).isSome = true)
    (h : files.walk here [name] = .error .notFound) :
    files.get? here = some .directory /\ files.get? (here ++ [name]) = none := by
  rcases hentry : files.get? here with _ | ⟨content⟩ | _
  · rw [hentry] at hhere
    cases hhere
  · rw [walk, hentry] at h
    cases h
  · refine ⟨rfl, ?_⟩
    rw [walk, hentry] at h
    simp only [beq_iff_eq, hname.nonempty, hname.notDot, hname.notDots, or_self, if_false,
      Bool.or_eq_true] at h
    split at h
    · cases h
    · rw [walk] at h
      split at h
      · cases h
      · rename_i hnone
        simpa using hnone

/-- What stood somewhere still stands there. -/
def Keeps (files after : Files) : Prop :=
  forall location entry, files.get? location = some entry -> after.get? location = some entry

theorem keeps_put {location : Location} (entry : Entry) (h : files.get? location = none) :
    files.Keeps (files.put location entry) := by
  intro other old hold
  rw [get?_put_of_ne _ _ ?_, hold]
  rintro rfl
  rw [h] at hold
  cases hold

/-- A walk that led somewhere still leads there. -/
theorem Keeps.walk (hkeeps : files.Keeps after) {segments : List Text}
    (h : files.walk here segments = .ok place) : after.walk here segments = .ok place := by
  induction segments generalizing here with
  | nil =>
      rw [walk_nil_ok_iff, Option.isSome_iff_exists] at h ⊢
      exact ⟨h.1, h.2.imp fun entry => hkeeps here entry⟩
  | cons segment rest ih =>
      have hdirectory := (walk_cons_ok h).1
      rw [Files.walk, hdirectory] at h
      rw [Files.walk, hkeeps here .directory hdirectory]
      dsimp only at h ⊢
      by_cases hsame : (segment == [] || segment == ['.']) = true
      · rw [if_pos hsame] at h ⊢
        exact ih h
      · rw [if_neg hsame] at h ⊢
        by_cases hup : (segment == ['.', '.']) = true
        · rw [if_pos hup] at h ⊢
          exact ih h
        · rw [if_neg hup] at h ⊢
          by_cases hlong : Text.byteLength segment > longestName
          · rw [if_pos hlong] at h
            cases h
          · rw [if_neg hlong] at h ⊢
            exact ih h

end Files

/-! ## Paths that are taken -/

namespace Path

/-- A path that is taken at all: it is neither empty nor too long, and it has no NUL character. -/
structure IsTaken (path : Path) : Prop where
  noNul : '\x00' ∉ path.text
  nonempty : path.text ≠ []
  short : Text.byteLength path.text <= Files.longestPath

/-- Where a walk along a path starts. -/
def origin (path : Path) (base : Location) : Location :=
  if path.isAbsolute then [] else base

theorem origin_join {path : Path} {name : Text} (h : '/' ∉ name) (base : Location) :
    (path.join name).origin base = path.origin base := by
  rw [origin, isAbsolute_join h, origin]

theorem join_text_ne_nil {path : Path} {name : Text} (h : name ≠ []) :
    (path.join name).text ≠ [] := by
  unfold join
  split <;> simp [h]

/-- What a name may be joined to is taken if the joined path is. -/
theorem IsTaken.of_join {path : Path} {name : Text} (h : (path.join name).IsTaken)
    (hnonempty : path.text ≠ []) : path.IsTaken := by
  obtain ⟨more, hmore⟩ : exists more, (path.join name).text = path.text ++ more := by
    unfold join
    split
    · exact ⟨name, rfl⟩
    · exact ⟨'/' :: name, rfl⟩
  have hnul := h.noNul
  have hshort := h.short
  rw [hmore, List.mem_append, not_or] at hnul
  rw [hmore, Text.byteLength_append] at hshort
  exact ⟨hnul.1, hnonempty, by omega⟩

/-- What is joined to a trimmed path is taken if it is taken behind the path itself. -/
theorem IsTaken.trim_join {path : Path} {name : Text} (hname : IsPlainName name)
    (h : (path.join name).IsTaken) : (path.trim.join name).IsTaken := by
  obtain ⟨habsolute, dropped, hstem, -⟩ := path.stem_trim
  have hnul := h.noNul
  have hshort := h.short
  rw [join_text hname.noSlash, hstem, List.flatMap_append] at hnul hshort
  refine ⟨?_, join_text_ne_nil hname.nonempty, ?_⟩
  · rw [join_text hname.noSlash, habsolute]
    simp only [List.mem_append, not_or] at hnul ⊢
    exact ⟨hnul.1, hnul.2.1.1, hnul.2.2⟩
  · rw [join_text hname.noSlash, habsolute]
    simp only [Text.byteLength_append] at hshort ⊢
    omega

end Path

namespace Files

variable {files after : Files} {base place directory : Location} {path : Path} {name : Text}

theorem locate_of_isTaken (h : path.IsTaken) (files : Files) (base : Location) :
    files.locate base path = files.walk (path.origin base) path.segments := by
  have hnul : path.text.contains '\x00' = false := by simpa using h.noNul
  have hempty : path.text.isEmpty = false := by simpa using h.nonempty
  rw [locate, hnul, hempty, if_neg (Nat.not_lt.2 h.short)]
  rfl

/-- What is not taken leads nowhere, and only the empty path is said not to be found then. -/
theorem locate_of_not_isTaken (h : ¬ path.IsTaken) (files : Files) (base : Location) :
    exists error, files.locate base path = .error error /\
      (error = .notFound -> path.text = []) := by
  unfold locate
  split
  · exact ⟨_, rfl, nofun⟩
  · rename_i hnul
    split
    · rename_i hempty
      exact ⟨_, rfl, fun _ => List.isEmpty_iff.1 hempty⟩
    · rename_i hnonempty
      split
      · exact ⟨_, rfl, nofun⟩
      · rename_i hshort
        refine absurd ⟨?_, ?_, Nat.not_lt.1 hshort⟩ h
        · simpa using hnul
        · simpa using hnonempty

theorem locate_ok_iff :
    files.locate base path = .ok place <->
      path.IsTaken /\ files.walk (path.origin base) path.segments = .ok place := by
  by_cases htaken : path.IsTaken
  · rw [locate_of_isTaken htaken, and_iff_right htaken]
  · obtain ⟨error, herror, -⟩ := locate_of_not_isTaken htaken files base
    rw [herror]
    exact iff_of_false nofun fun h => htaken h.1

theorem locate_notFound_iff (hnonempty : path.text ≠ []) :
    files.locate base path = .error .notFound <->
      path.IsTaken /\ files.walk (path.origin base) path.segments = .error .notFound := by
  by_cases htaken : path.IsTaken
  · rw [locate_of_isTaken htaken, and_iff_right htaken]
  · obtain ⟨error, herror, hempty⟩ := locate_of_not_isTaken htaken files base
    rw [herror]
    refine iff_of_false ?_ fun h => htaken h.1
    intro hnotFound
    exact hnonempty (hempty (Except.error.inj hnotFound))

/-- A directory that a location leads to is the one at the location itself. -/
theorem locate_plain {location : Location} (hplain : ∀ name ∈ location, IsPlainName name)
    (hdirectory : files.get? place = some .directory)
    (h : files.locate base location.toPath = .ok place) : place = location := by
  have hwalk := (locate_ok_iff.1 h).2
  rw [walk_segments_ok_iff hdirectory, Location.stem_toPath hplain] at hwalk
  exact walk_plain hplain hwalk

/-! ## Names that are joined -/

theorem locate_join_ok_iff (hname : IsPlainName name) :
    files.locate base (path.join name) = .ok place <->
      (path.join name).IsTaken /\ exists directory,
        files.walk (path.origin base) path.stem = .ok directory /\
        files.walk directory [name] = .ok place := by
  rw [locate_ok_iff, Path.segments_join hname.noSlash, Path.origin_join hname.noSlash,
    walk_append_ok_iff]

/-- A name behind a path leads to the same place as behind the trimmed path. -/
theorem locate_trim_join (hname : IsPlainName name)
    (h : files.locate base (path.join name) = .ok place) :
    files.locate base (path.trim.join name) = .ok place := by
  obtain ⟨habsolute, dropped, hstem, hdropped⟩ := path.stem_trim
  rw [locate_join_ok_iff hname, hstem] at h
  obtain ⟨htaken, directory, hleads, hlast⟩ := h
  obtain ⟨middle, hmiddle, hrest⟩ := walk_append_ok_iff.1 hleads
  rw [locate_join_ok_iff hname, Path.origin, habsolute]
  refine ⟨htaken.trim_join hname, middle, hmiddle, ?_⟩
  exact walk_nameless hdropped (walk_append_ok_iff.2 ⟨directory, hrest, hlast⟩)

/-- A directory that a path leads to, where a name is still to be given. -/
structure HasRoom (files : Files) (base : Location) (path : Path) (name : Text)
    (directory : Location) : Prop where
  taken : (path.join name).IsTaken
  leads : files.walk (path.origin base) path.stem = .ok directory
  isDirectory : files.get? directory = some .directory
  absent : files.get? (directory ++ [name]) = none

theorem create_join (h : '/' ∉ name) (files : Files) (base : Location) (content : ByteArray) :
    files.create base (path.join name) content =
      (files.walk (path.origin base) path.stem).map fun directory =>
        files.put (directory ++ [name]) (.file content) := by
  rw [create, Path.segments_join h, Path.isAbsolute_join h, List.dropLast_concat,
    List.getLast?_concat, ← Path.origin]
  cases files.walk (path.origin base) path.stem <;> rfl

/-- A file is created in a directory that has room for it. -/
theorem hasRoom_of_create {content : ByteArray} (hname : IsPlainName name)
    (hmissing : files.locate base (path.join name) = .error .notFound)
    (hcreate : files.create base (path.join name) content = .ok after) :
    exists directory, files.HasRoom base path name directory /\
      after = files.put (directory ++ [name]) (.file content) := by
  obtain ⟨htaken, hwalk⟩ :=
    (locate_notFound_iff (Path.join_text_ne_nil hname.nonempty)).1 hmissing
  rw [Path.segments_join hname.noSlash, Path.origin_join hname.noSlash] at hwalk
  rw [create_join hname.noSlash] at hcreate
  cases hleads : files.walk (path.origin base) path.stem with
  | error error =>
      rw [hleads] at hcreate
      cases hcreate
  | ok directory =>
      rw [hleads] at hcreate
      rw [walk_append hleads] at hwalk
      obtain ⟨hdirectory, habsent⟩ := walk_name_notFound hname (isSome_of_walk hleads) hwalk
      exact ⟨directory, ⟨htaken, hleads, hdirectory, habsent⟩, (Except.ok.inj hcreate).symm⟩

/-- What is put where there was room is found there. -/
theorem HasRoom.locate_put (h : files.HasRoom base path name directory) (hname : IsPlainName name)
    (hshort : Text.byteLength name <= longestName) (entry : Entry) :
    (files.put (directory ++ [name]) entry).locate base (path.join name) =
      .ok (directory ++ [name]) := by
  have hkeeps := keeps_put entry h.absent
  rw [locate_join_ok_iff hname]
  refine ⟨h.taken, directory, hkeeps.walk h.leads, ?_⟩
  rw [walk, hkeeps directory .directory h.isDirectory]
  simp only [beq_iff_eq, hname.nonempty, hname.notDot, hname.notDots, or_self, if_false,
    Bool.or_eq_true, Nat.not_lt.2 hshort]
  exact walk_nil_ok_iff.2 ⟨rfl, by rw [get?_put_self]; rfl⟩

end Files

end TranslationKeys

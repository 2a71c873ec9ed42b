import Mathlib.Data.Nat.Find
import TranslationKeys.Config.Search
import TranslationKeys.Proofs.Following

/-!
# Climbing to the settings

The search for a configuration file goes up from a path, one name at a time, until
there is none left.  It stops at the first configuration file and behind the first
root of a repository.  So nothing but these two names, and nothing further up,
makes a difference to the settings that are loaded.
-/

namespace TranslationKeys

/-! ## Going up some times -/

namespace Path

/-- The path after so many steps up, if there are that many. -/
def climb (start : Path) : Nat -> Option Path
  | 0 => some start
  | count + 1 => (start.climb count).bind parent?

variable {start directory above : Path} {count : Nat}

theorem climb_add (start : Path) (first second : Nat) :
    start.climb (first + second) = (start.climb first).bind fun above => above.climb second := by
  induction second with
  | zero => cases start.climb first <;> rfl
  | succ second ih =>
      rw [← Nat.add_assoc, climb, ih, Option.bind_assoc]
      rfl

theorem climb_succ (start : Path) (count : Nat) :
    start.climb (count + 1) = start.parent?.bind fun above => above.climb count := by
  rw [Nat.add_comm, climb_add]
  rfl

/-- Every step up shortens the stem and keeps to the root. -/
theorem stem_of_climb (h : start.climb count = some directory) :
    directory.isAbsolute = start.isAbsolute /\
      directory.stem.length + count <= start.stem.length := by
  induction count generalizing directory with
  | zero =>
      cases h
      exact ⟨rfl, Nat.le_refl _⟩
  | succ count ih =>
      obtain ⟨below, hbelow, hparent⟩ := Option.bind_eq_some_iff.1 h
      obtain ⟨habsolute, hlength⟩ := ih hbelow
      obtain ⟨hroot, hshorter⟩ := stem_of_parent? hparent
      exact ⟨hroot.trans habsolute, by omega⟩

/-- The number of steps up is bounded by the length of the text. -/
theorem climb_eq_none (h : start.text.length < count) : start.climb count = none := by
  cases hclimb : start.climb count with
  | none => rfl
  | some directory =>
      have hstem := (stem_of_climb hclimb).2
      have hlength := start.length_stem_le
      omega

/-- Every climb comes to a path that nothing is above. -/
theorem exists_climb_last (start : Path) :
    exists last directory, start.climb last = some directory /\ directory.parent? = none := by
  have hends : exists count, start.climb count = none :=
    ⟨start.text.length + 1, climb_eq_none (Nat.lt_succ_self _)⟩
  cases hfirst : Nat.find hends with
  | zero =>
      have hnone := Nat.find_spec hends
      rw [hfirst] at hnone
      cases hnone
  | succ last =>
      have hsome := Nat.find_min hends (m := last) (by omega)
      obtain ⟨directory, hdirectory⟩ := Option.ne_none_iff_exists'.1 hsome
      have hnone := Nat.find_spec hends
      rw [hfirst, climb, hdirectory] at hnone
      exact ⟨last, directory, hdirectory, hnone⟩

/-- Nothing is above the last path of a climb, and every number of steps before it is possible. -/
theorem isSome_climb_iff {last : Nat} {highest : Path} (hhighest : start.climb last = some highest)
    (hparent : highest.parent? = none) : (start.climb count).isSome = true <-> count <= last := by
  constructor
  · intro hsome
    by_contra hlater
    obtain ⟨more, rfl⟩ := Nat.exists_eq_add_of_lt (Nat.not_le.1 hlater)
    rw [Nat.add_assoc, climb_add, hhighest, Option.bind_some, climb_succ, hparent] at hsome
    cases hsome
  · intro hearlier
    obtain ⟨more, rfl⟩ := Nat.exists_eq_add_of_le hearlier
    rw [climb_add] at hhighest
    cases hclimb : start.climb count with
    | none =>
        rw [hclimb] at hhighest
        cases hhighest
    | some directory => rfl

theorem ancestorsWithin_getElem? {bound : Nat} (h : start.stem.length <= bound) (count : Nat) :
    (ancestorsWithin bound start)[count]? = start.climb count := by
  induction bound generalizing start count with
  | zero =>
      cases count with
      | zero => rfl
      | succ count =>
          have hnone : start.parent? = none := by
            cases hparent : start.parent? with
            | none => rfl
            | some above =>
                have hshorter := (stem_of_parent? hparent).2
                omega
          rw [climb_succ, hnone]
          rfl
  | succ bound ih =>
      rw [ancestorsWithin]
      cases hparent : start.parent? with
      | none =>
          cases count with
          | zero => rfl
          | succ count =>
              rw [climb_succ, hparent]
              rfl
      | some above =>
          cases count with
          | zero => rfl
          | succ count =>
              have hshorter := (stem_of_parent? hparent).2
              rw [climb_succ, hparent, Option.bind_some, List.getElem?_cons_succ,
                ih (by omega)]

/-- The bound is never reached: all paths above a path are among its ancestors. -/
theorem ancestors_getElem? (start : Path) (count : Nat) :
    start.ancestors[count]? = start.climb count :=
  ancestorsWithin_getElem? start.length_stem_le count

theorem stem_eq_of_join_eq {first second : Path} {name : Text} (hname : '/' ∉ name)
    (h : first.join name = second.join name) : first.stem = second.stem := by
  have hsegments := congrArg segments h
  rw [segments_join hname, segments_join hname] at hsegments
  exact List.append_cancel_right hsegments

/-- A name that is joined to the paths on the way up gives a different path each time. -/
theorem climb_join_inj {first second : Nat} {lower upper : Path} {name : Text}
    (hname : '/' ∉ name) (hlower : start.climb first = some lower)
    (hupper : start.climb second = some upper) (h : lower.join name = upper.join name) :
    first = second := by
  have hstems := congrArg List.length (stem_eq_of_join_eq hname h)
  have hordered {a b : Nat} {below above : Path} (hbelow : start.climb a = some below)
      (habove : start.climb b = some above) (hle : a <= b) :
      above.stem.length + (b - a) <= below.stem.length := by
    rw [← Nat.add_sub_cancel' hle, climb_add, hbelow] at habove
    exact (stem_of_climb habove).2
  rcases Nat.le_total first second with hle | hle
  · have hlength := hordered hlower hupper hle
    omega
  · have hlength := hordered hupper hlower hle
    omega

end Path

/-! ## What stands at the end of a path -/

/-- What is read where an entry stands. -/
def Entry.content : Entry -> Except FileError ByteArray
  | .file content => .ok content
  | .directory => .error .isADirectory

namespace Files

variable {files : Files} {base : Location} {path : Path}

/-- What stands at the end of a path, if the path leads anywhere. -/
def found? (files : Files) (base : Location) (path : Path) : Option Entry :=
  match files.locate base path with
  | .ok location => files.get? location
  | .error _ => none

/-- Where a path leads, something stands. -/
theorem pathExists_eq (files : Files) (base : Location) (path : Path) :
    files.pathExists base path = (files.found? base path).isSome := by
  unfold pathExists found?
  cases hlocate : files.locate base path with
  | ok location => exact (isSome_of_walk (locate_ok_iff.1 hlocate).2).symm
  | error error => rfl

theorem read_of_found? {entry : Entry} (h : files.found? base path = some entry) :
    files.read base path = entry.content := by
  unfold found? at h
  cases hlocate : files.locate base path with
  | error error =>
      rw [hlocate] at h
      cases h
  | ok location =>
      rw [hlocate] at h
      dsimp only at h
      simp only [read, hlocate, bind, Except.bind, h]
      cases entry <;> rfl

/-- A text that is read depends on nothing but what stands at the end of the path. -/
theorem readText_congr {other : Files} {place : Location} {entry : Entry}
    (h : files.found? base path = some entry) (hother : other.found? place path = some entry) :
    files.readText base path = other.readText place path := by
  rw [readText, readText, read_of_found? h, read_of_found? hother]

end Files

namespace Config

variable {files : Files} {base : Location} {start : Path}

/-! ## Searching in a list of directories -/

/-- Something stands at the path of the configuration file of a directory. -/
def HasSettings (files : Files) (base : Location) (directory : Path) : Prop :=
  files.pathExists base (directory.join fileName) = true

/-- A directory is the root of a repository. -/
def HasMark (files : Files) (base : Location) (directory : Path) : Prop :=
  files.pathExists base (directory.join repositoryMark) = true

/-- A directory ends the search. -/
def EndsSearch (files : Files) (base : Location) (directory : Path) : Prop :=
  HasSettings files base directory \/ HasMark files base directory

theorem searchIn_cons (files : Files) (base : Location) (directory : Path)
    (above : List Path) :
    (HasSettings files base directory /\
      searchIn files base (directory :: above) = some (directory.join fileName)) \/
    (¬ HasSettings files base directory /\ HasMark files base directory /\
      searchIn files base (directory :: above) = none) \/
    (¬ EndsSearch files base directory /\
      searchIn files base (directory :: above) = searchIn files base above) := by
  unfold EndsSearch HasSettings HasMark
  rw [searchIn]
  split
  · rename_i hsettings
    exact Or.inl ⟨hsettings, rfl⟩
  · rename_i hsettings
    split
    · rename_i hmark
      exact Or.inr (Or.inl ⟨hsettings, hmark, rfl⟩)
    · rename_i hmark
      exact Or.inr (Or.inr ⟨not_or.2 ⟨hsettings, hmark⟩, rfl⟩)

theorem searchIn_eq_some_iff {directories : List Path} {path : Path} :
    searchIn files base directories = some path <->
      exists count directory, directories[count]? = some directory /\
        path = directory.join fileName /\ HasSettings files base directory /\
        forall (fewer : Nat) (nearer : Path), fewer < count ->
          directories[fewer]? = some nearer -> ¬ EndsSearch files base nearer := by
  induction directories with
  | nil => simp [searchIn]
  | cons first rest ih =>
      rcases searchIn_cons files base first rest with
        ⟨hsettings, hsearch⟩ | ⟨hsettings, hmark, hsearch⟩ | ⟨hends, hsearch⟩ <;> rw [hsearch]
      · constructor
        · intro h
          cases h
          exact ⟨0, first, rfl, rfl, hsettings, fun fewer _ hfewer => absurd hfewer (by omega)⟩
        · rintro ⟨_ | count, directory, hdirectory, rfl, -, hnearer⟩
          · cases hdirectory
            rfl
          · exact absurd (Or.inl hsettings) (hnearer 0 first (Nat.succ_pos count) rfl)
      · refine iff_of_false nofun ?_
        rintro ⟨_ | count, directory, hdirectory, -, hholds, hnearer⟩
        · cases hdirectory
          exact hsettings hholds
        · exact hnearer 0 first (Nat.succ_pos count) rfl (Or.inr hmark)
      · rw [ih]
        constructor
        · rintro ⟨count, directory, hdirectory, rfl, hholds, hnearer⟩
          refine ⟨count + 1, directory, hdirectory, rfl, hholds, ?_⟩
          rintro (_ | fewer) nearer hfewer hclimbed
          · cases hclimbed
            exact hends
          · exact hnearer fewer nearer (by omega) hclimbed
        · rintro ⟨_ | count, directory, hdirectory, rfl, hholds, hnearer⟩
          · cases hdirectory
            exact absurd (Or.inl hholds) hends
          · refine ⟨count, directory, hdirectory, rfl, hholds, ?_⟩
            intro fewer nearer hfewer hclimbed
            exact hnearer (fewer + 1) nearer (by omega) hclimbed

/-! ## The nearest settings -/

/-- The nearest configuration file is so many steps up, and no root of a repository is nearer. -/
structure IsNearest (files : Files) (base : Location) (start : Path) (count : Nat)
    (directory : Path) : Prop where
  climbed : start.climb count = some directory
  settings : HasSettings files base directory
  nearer : forall (fewer : Nat) (other : Path), fewer < count ->
    start.climb fewer = some other -> ¬ EndsSearch files base other

theorem find?_eq_some_iff {path : Path} :
    find? files base start = some path <->
      exists count directory, IsNearest files base start count directory /\
        path = directory.join fileName := by
  simp only [find?, searchIn_eq_some_iff, Path.ancestors_getElem?]
  constructor
  · rintro ⟨count, directory, hclimbed, hpath, hsettings, hnearer⟩
    exact ⟨count, directory, ⟨hclimbed, hsettings, hnearer⟩, hpath⟩
  · rintro ⟨count, directory, hnearest, hpath⟩
    exact ⟨count, directory, hnearest.climbed, hpath, hnearest.settings, hnearest.nearer⟩

theorem find?_eq_none_iff :
    find? files base start = none <->
      ¬ exists count directory, IsNearest files base start count directory := by
  rw [Option.eq_none_iff_forall_ne_some]
  constructor
  · rintro hnone ⟨count, directory, hnearest⟩
    exact hnone _ (find?_eq_some_iff.2 ⟨count, directory, hnearest, rfl⟩)
  · intro hnone path hpath
    obtain ⟨count, directory, hnearest, -⟩ := find?_eq_some_iff.1 hpath
    exact hnone ⟨count, directory, hnearest⟩

/-- Where the search does not end, it goes on above. -/
theorem find?_of_parent? {above : Path} (hends : ¬ EndsSearch files base start)
    (hparent : start.parent? = some above) : find? files base start = find? files base above := by
  have hancestors : start.ancestors = start :: above.ancestors := by
    apply List.ext_getElem?
    rintro (_ | count)
    · exact Path.ancestors_getElem? start 0
    · rw [Path.ancestors_getElem?, Path.climb_succ, hparent, Option.bind_some,
        List.getElem?_cons_succ, Path.ancestors_getElem?]
  rw [find?, hancestors]
  rcases searchIn_cons files base start above.ancestors with
    ⟨hsettings, -⟩ | ⟨-, hmark, -⟩ | ⟨-, hsearch⟩
  · exact absurd (Or.inl hsettings) hends
  · exact absurd (Or.inr hmark) hends
  · exact hsearch

theorem find?_of_hasSettings (h : HasSettings files base start) :
    find? files base start = some (start.join fileName) :=
  find?_eq_some_iff.2 ⟨0, start, ⟨rfl, h, fun _ _ hfewer => absurd hfewer (Nat.not_lt_zero _)⟩, rfl⟩

/-! ## What makes a difference -/

/-- Two systems hold the same settings in a directory, and agree on it as a root of a repository. -/
structure Agrees (files : Files) (base : Location) (files' : Files) (base' : Location)
    (directory : Path) : Prop where
  settings : files.found? base (directory.join fileName) =
    files'.found? base' (directory.join fileName)
  mark : files.pathExists base (directory.join repositoryMark) =
    files'.pathExists base' (directory.join repositoryMark)

/-- The step that a search ends with: settings, the root of a repository or the last path. -/
structure IsLast (files : Files) (base : Location) (start : Path) (count : Nat)
    (directory : Path) : Prop where
  climbed : start.climb count = some directory
  last : EndsSearch files base directory \/ directory.parent? = none
  nearer : forall (fewer : Nat) (other : Path), fewer < count ->
    start.climb fewer = some other -> ¬ EndsSearch files base other

theorem exists_isLast (files : Files) (base : Location) (start : Path) :
    exists count directory, IsLast files base start count directory := by
  classical
  obtain ⟨last, highest, hhighest, hparent⟩ := Path.exists_climb_last start
  have hends : exists count directory, start.climb count = some directory /\
      (EndsSearch files base directory \/ directory.parent? = none) :=
    ⟨last, highest, hhighest, Or.inr hparent⟩
  obtain ⟨directory, hclimbed, hlast⟩ := Nat.find_spec hends
  refine ⟨Nat.find hends, directory, hclimbed, hlast, ?_⟩
  intro fewer other hfewer hother hstops
  exact Nat.find_min hends hfewer ⟨other, hother, Or.inl hstops⟩

variable {files' : Files} {base' : Location}

/-- A search depends on nothing behind the step that it ends with. -/
theorem searchIn_congr {directories : List Path} {count : Nat}
    (hagrees : forall (index : Nat) (directory : Path), index <= count ->
      directories[index]? = some directory -> Agrees files base files' base' directory)
    (hlast : forall directory, directories[count]? = some directory ->
      EndsSearch files base directory \/ directories[count + 1]? = none) :
    searchIn files base directories = searchIn files' base' directories /\
      forall path, searchIn files base directories = some path ->
        files.found? base path = files'.found? base' path := by
  induction directories generalizing count with
  | nil => exact ⟨rfl, nofun⟩
  | cons first rest ih =>
      have hfirst := hagrees 0 first (Nat.zero_le count) rfl
      have hsettings : files.pathExists base (first.join fileName) =
          files'.pathExists base' (first.join fileName) := by
        rw [Files.pathExists_eq, Files.pathExists_eq, hfirst.settings]
      rw [searchIn, searchIn, ← hsettings, ← hfirst.mark]
      split
      · refine ⟨rfl, ?_⟩
        rintro path ⟨⟩
        exact hfirst.settings
      · rename_i hwithout
        split
        · exact ⟨rfl, nofun⟩
        · rename_i hunmarked
          cases count with
          | zero =>
              have hrest := (hlast first rfl).resolve_left (not_or.2 ⟨hwithout, hunmarked⟩)
              cases rest with
              | nil => exact ⟨rfl, nofun⟩
              | cons second more => cases hrest
          | succ count =>
              refine ih (fun index directory hindex hdirectory => ?_) hlast
              exact hagrees (index + 1) directory (Nat.succ_le_succ hindex) hdirectory

theorem load_congr (hfind : find? files base start = find? files' base' start)
    (hentry : forall path, find? files base start = some path ->
      files.found? base path = files'.found? base' path) :
    load files base start = load files' base' start := by
  unfold load
  rw [← hfind]
  cases hpath : find? files base start with
  | none => rfl
  | some path =>
      obtain ⟨_, directory, hnearest, rfl⟩ := find?_eq_some_iff.1 hpath
      have hsome := hnearest.settings
      rw [HasSettings, Files.pathExists_eq, Option.isSome_iff_exists] at hsome
      obtain ⟨entry, hstands⟩ := hsome
      have hstands' := hentry _ hpath
      rw [hstands] at hstands'
      simp only [Files.readText_congr hstands hstands'.symm]

/-- Only the settings and the roots of repositories up to the last step make a difference. -/
theorem IsLast.load_eq {count : Nat} {directory : Path}
    (h : IsLast files base start count directory)
    (hagrees : forall (fewer : Nat) (other : Path), fewer <= count ->
      start.climb fewer = some other -> Agrees files base files' base' other) :
    load files base start = load files' base' start := by
  have hsearch : searchIn files base start.ancestors = searchIn files' base' start.ancestors /\
      forall path, searchIn files base start.ancestors = some path ->
        files.found? base path = files'.found? base' path := by
    apply searchIn_congr
    · intro index other hindex hother
      rw [Path.ancestors_getElem?] at hother
      exact hagrees index other hindex hother
    · intro other hother
      rw [Path.ancestors_getElem?, h.climbed, Option.some.injEq] at hother
      subst hother
      refine h.last.imp_right fun hparent => ?_
      rw [Path.ancestors_getElem?, Path.climb, h.climbed, Option.bind_some, hparent]
  exact load_congr hsearch.1 hsearch.2

/-- Settings are found in a directory exactly if it is the nearest one with settings. -/
theorem find?_join_iff {count : Nat} {directory : Path}
    (hclimbed : start.climb count = some directory) :
    find? files base start = some (directory.join fileName) <->
      IsNearest files base start count directory := by
  rw [find?_eq_some_iff]
  constructor
  · rintro ⟨other, upper, hnearest, hpath⟩
    have hname : '/' ∉ fileName := by decide
    have hcount := Path.climb_join_inj hname hclimbed hnearest.climbed hpath
    subst hcount
    have hsame : directory = upper := Option.some.inj (hclimbed.symm.trans hnearest.climbed)
    exact hsame ▸ hnearest
  · exact fun hnearest => ⟨count, directory, hnearest, rfl⟩

/--
From every path the climb comes to an end, and the search finds the settings of a
directory exactly if it is the nearest one with settings and no root of a
repository is nearer.  It finds nothing exactly if there is no such directory.
There is always a step that the search ends with, and two systems that agree on
the paths up to this step load the same settings.
-/
theorem search_ends_at_nearest_settings (files : Files) (base : Location) (start : Path) :
    (exists last, forall count, (start.climb count).isSome = true <-> count <= last) /\
    (forall (count : Nat) (directory : Path), start.climb count = some directory ->
      (find? files base start = some (directory.join fileName) <->
        IsNearest files base start count directory)) /\
    (find? files base start = none <->
      ¬ exists count directory, IsNearest files base start count directory) /\
    (exists count directory, IsLast files base start count directory) /\
    (forall (count : Nat) (directory : Path) (files' : Files) (base' : Location),
      IsLast files base start count directory ->
      (forall (fewer : Nat) (other : Path), fewer <= count ->
        start.climb fewer = some other -> Agrees files base files' base' other) ->
      load files base start = load files' base' start) := by
  obtain ⟨last, highest, hhighest, hparent⟩ := Path.exists_climb_last start
  exact ⟨⟨last, fun count => Path.isSome_climb_iff hhighest hparent⟩,
    fun count directory => find?_join_iff, find?_eq_none_iff, exists_isLast files base start,
    fun count directory files' base' hlast => hlast.load_eq⟩

/-! ## Settings between two directories -/

/-- A directory with settings, one below it, and something or nothing that outer settings are in. -/
def innerSettings (outer : Option Entry) : Files :=
  ⟨fun location =>
    if location = [] \/ location = [['a']] \/ location = [['a'], ['b']] then some .directory
    else if location = [['a'], fileName] then some (.file (Text.toBytes defaultText))
    else if location = [fileName] then outer
    else none⟩

/-- From below, the inner settings are found, and the outer ones make no difference. -/
theorem inner_settings_hide_outer_ones :
    find? (innerSettings none) [] ⟨"/a/b".toList⟩ = some ⟨"/a/.i18nexprrc.json".toList⟩ /\
      load (innerSettings none) [] ⟨"/a/b".toList⟩ =
        load (innerSettings (some .directory)) [] ⟨"/a/b".toList⟩ := by
  have hclimbed : Path.climb ⟨"/a/b".toList⟩ 1 = some ⟨"/a".toList⟩ := by rfl
  have hsettings : HasSettings (innerSettings none) [] ⟨"/a".toList⟩ := by rfl
  have hnearer (fewer : Nat) (other : Path) (hfewer : fewer < 1)
      (hother : Path.climb ⟨"/a/b".toList⟩ fewer = some other) :
      ¬ EndsSearch (innerSettings none) [] other := by
    obtain rfl : fewer = 0 := by omega
    cases hother
    exact not_or.2 ⟨Bool.false_ne_true, Bool.false_ne_true⟩
  obtain ⟨-, hfind, -, -, hload⟩ :=
    search_ends_at_nearest_settings (innerSettings none) [] ⟨"/a/b".toList⟩
  constructor
  · exact (hfind 1 _ hclimbed).2 ⟨hclimbed, hsettings, hnearer⟩
  · apply hload 1 _ _ _ ⟨hclimbed, Or.inl (Or.inl hsettings), hnearer⟩
    rintro (_ | _ | fewer) other hfewer hother
    · cases hother
      exact ⟨by rfl, by rfl⟩
    · cases hother
      exact ⟨by rfl, by rfl⟩
    · omega

end Config

end TranslationKeys

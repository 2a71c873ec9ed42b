import Mathlib.Data.List.Induction
import TranslationKeys.Proofs.Additions
import TranslationKeys.Proofs.Climbing

/-!
# New settings

Once `init` has added the settings of a directory, they are the default ones for
the directory and for all that is below it, as far as no other settings and no
root of a repository come first.  Whatever settings are further up make no
difference any more, and `init` has nothing left to do.
-/

namespace TranslationKeys

/-! ## Absolute paths -/

/-- An absolute path leads to the same place from everywhere. -/
theorem Files.found?_of_absolute {path : Path} (h : path.isAbsolute = true) (files : Files)
    (base base' : Location) : files.found? base path = files.found? base' path := by
  simp only [found?, locate, h, if_true]

/-- The settings of an absolute path are the same from everywhere. -/
theorem Config.load_of_absolute {start : Path} (h : start.isAbsolute = true) (files : Files)
    (base base' : Location) : load files base start = load files base' start := by
  obtain ⟨count, directory, hlast⟩ := exists_isLast files base start
  apply hlast.load_eq
  intro fewer other _ hother
  have habsolute : other.isAbsolute = true := (Path.stem_of_climb hother).1.trans h
  have hjoined {name : Text} (hname : '/' ∉ name) : (other.join name).isAbsolute = true :=
    (Path.isAbsolute_join hname).trans habsolute
  constructor
  · exact Files.found?_of_absolute (hjoined (by decide)) files base base'
  · rw [Files.pathExists_eq, Files.pathExists_eq,
      Files.found?_of_absolute (hjoined (by decide)) files base base']

/-! ## Paths below a directory -/

/-- A name of something below a directory: one segment, and none that stays in the directory. -/
def IsBelow (name : Text) : Prop :=
  ¬ Path.IsNameless name /\ '/' ∉ name

/-- The path of some names below a directory, each one in the one before it. -/
def Path.below (top : Path) (names : List Text) : Path :=
  names.foldl join top

theorem Path.below_concat (top : Path) (names : List Text) (name : Text) :
    top.below (names ++ [name]) = (top.below names).join name :=
  List.foldl_concat join top name names

section Below

variable {files : Files} {base place : Location} {top : Path}

namespace Config

/--
The search from below a directory with settings finds these settings, if it does
not end before it gets there.
-/
theorem find?_below (hplace : files.locate base (top.join fileName) = .ok place)
    {names : List Text} (hnames : ∀ name ∈ names, IsBelow name)
    (hfree : forall front more, front ++ more = names -> front ≠ [] ->
      ¬ EndsSearch files base (top.below front)) :
    exists path, find? files base (top.below names) = some path /\
      files.locate base path = .ok place := by
  have hsettings {directory : Path} (h : files.locate base (directory.join fileName) = .ok place) :
      HasSettings files base directory := by
    rw [HasSettings, Files.pathExists, h]
  induction names using List.reverseRecOn with
  | nil => exact ⟨_, find?_of_hasSettings (hsettings hplace), hplace⟩
  | append_singleton names name ih =>
      rw [List.forall_mem_append, List.forall_mem_singleton] at hnames
      have hends := hfree (names ++ [name]) [] (List.append_nil _) (by simp)
      rw [Path.below_concat] at hends ⊢
      rw [find?_of_parent? hends (Path.parent?_join hnames.2.1 hnames.2.2)]
      rcases List.eq_nil_or_concat' names with rfl | ⟨upper, last, rfl⟩
      · -- The directory itself is trimmed, which leads to the same settings.
        have htrim := Files.locate_trim_join fileName_isPlain hplace
        exact ⟨_, find?_of_hasSettings (hsettings htrim), htrim⟩
      · have hlast := hnames.1 last (by simp)
        rw [Path.below_concat, Path.trim_join hlast.1 hlast.2, ← Path.below_concat]
        apply ih hnames.1
        intro front more hfront hnonempty
        exact hfree front (more ++ [name]) (by rw [← List.append_assoc, hfront]) hnonempty

theorem decode_defaultText : decode defaultText = .ok .default := by
  rfl

theorem load_below (hplace : files.locate base (top.join fileName) = .ok place)
    (hentry : files.get? place = some (.file (Text.toBytes defaultText)))
    {names : List Text} (hnames : ∀ name ∈ names, IsBelow name)
    (hfree : forall front more, front ++ more = names -> front ≠ [] ->
      ¬ EndsSearch files base (top.below front)) :
    load files base (top.below names) = .ok ⟨.default, true⟩ := by
  obtain ⟨path, hfind, hlocate⟩ := find?_below hplace hnames hfree
  have hread : files.readText base path = .ok defaultText := by
    have hfound : files.found? base path = some (.file (Text.toBytes defaultText)) := by
      rw [Files.found?, hlocate]
      exact hentry
    rw [Files.readText, Files.read_of_found? hfound]
    simp only [Entry.content, bind, Except.bind, Text.ofBytes?_toBytes]
  rw [load, hfind]
  simp only [hread, decode_defaultText]

end Config

end Below

/-! ## After `init` -/

/--
After `init` has created the settings of a directory, the default settings are
loaded from there and from every path below, by whichever name the directory is
called, if no path on the way has settings or the root of a repository of its own.
The runs of `parse` there are under the default settings, whatever settings are
above the directory, and a further `init` changes nothing.
-/
theorem new_settings_apply_below {files after : Files} {base : Location} {directory : Path}
    (hinit : initIn files base directory = .ok (.initialized true, after)) :
    (forall (top : Path) (names : List Text),
      after.locate base (top.join Config.fileName) =
        after.locate base (directory.join Config.fileName) ->
      (∀ name ∈ names, IsBelow name) ->
      (forall front more, front ++ more = names -> front ≠ [] ->
        ¬ Config.EndsSearch after base (top.below front)) ->
      Config.load after base (top.below names) = .ok ⟨.default, true⟩ /\
      forall (measure : Text -> Nat) (invocation : Invocation) (options : ParseOptions),
        invocation.cwd.toPath = top.below names ->
        Arguments.read invocation.arguments = .ok (some (.parse options)) ->
        runBy measure after invocation =
          (invocation.endingUnder measure .default after options, after)) /\
    initIn after base directory = .ok (.initialized false, after) := by
  rcases initIn_ok hinit with ⟨hcreated, -⟩ | ⟨-, place, hroom, rfl⟩
  · cases hcreated
  · have hlocate : (files.withSettings place).locate base (directory.join Config.fileName) =
        .ok (place ++ [Config.fileName]) :=
      hroom.locate_put Config.fileName_isPlain (by decide) _
    constructor
    · intro top names hsame hnames hfree
      have hload := Config.load_below (hsame.trans hlocate) (Files.get?_put_self _ _ _) hnames hfree
      refine ⟨hload, fun measure invocation options hcwd hcommand => ?_⟩
      have habsolute : (top.below names).isAbsolute = true := by
        rw [← hcwd]
        rfl
      rw [Config.load_of_absolute habsolute _ base invocation.cwd, ← hcwd] at hload
      exact runBy_of_load hcommand hload measure
    · rw [initIn, hlocate]

/-! ## A directory below broken settings -/

/-- A directory in a directory, below settings that cannot be decoded. -/
def brokenSettings : Files :=
  ⟨fun location =>
    if location = [] \/ location = [['a']] \/ location = [['a'], ['b']] then some .directory
    else if location = [Config.fileName] then some (.file (Text.toBytes ['[']))
    else none⟩

def inputBelow : Invocation :=
  ⟨["parse".toList, ['x']], .empty, [['a'], ['b']], false⟩

/-- The broken settings stop a run, until `init` hides them by its relative path. -/
theorem init_hides_broken_settings :
    (exists error, (run brokenSettings inputBelow).1 = .internal error) /\
      Config.load (brokenSettings.withSettings [['a']]) [] ⟨"/a/b".toList⟩ =
        .ok ⟨.default, true⟩ /\
      run (brokenSettings.withSettings [['a']]) inputBelow =
        (inputBelow.endingUnder Text.displayWidth .default
          (brokenSettings.withSettings [['a']]) { ParseOptions.empty with inputs := [['x']] },
          brokenSettings.withSettings [['a']]) := by
  have hinit : initIn brokenSettings [] ⟨"a/.".toList⟩ =
      .ok (.initialized true, brokenSettings.withSettings [['a']]) := by
    rfl
  have hnames : ∀ name ∈ [['b']], IsBelow name := by
    rw [List.forall_mem_singleton]
    exact ⟨by simp [Path.IsNameless], by decide⟩
  have hfree (front more : List Text) (hfront : front ++ more = [['b']]) (hnonempty : front ≠ []) :
      ¬ Config.EndsSearch (brokenSettings.withSettings [['a']]) []
        (Path.below ⟨"/a".toList⟩ front) := by
    obtain rfl : front = [['b']] := by
      rcases List.append_eq_singleton_iff.1 hfront with ⟨hempty, -⟩ | ⟨hsame, -⟩
      · exact absurd hempty hnonempty
      · exact hsame
    exact not_or.2 ⟨Bool.false_ne_true, Bool.false_ne_true⟩
  obtain ⟨hload, hrun⟩ :=
    (new_settings_apply_below hinit).1 ⟨"/a".toList⟩ [['b']] (by rfl) hnames hfree
  exact ⟨⟨_, by rfl⟩, hload, hrun Text.displayWidth inputBelow _ (by rfl) (by rfl)⟩

end TranslationKeys

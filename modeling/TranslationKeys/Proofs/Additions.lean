import TranslationKeys.Proofs.Following
import TranslationKeys.Proofs.Streams

/-!
# What runs add to the files

A run leaves everything as it was that stood there before it.  The only thing
that any run adds is the configuration file in the directory of an `init` run, at
a location where nothing stood.  One run keeps the files, and so a sequence does.
-/

namespace TranslationKeys

/-! ## One run -/

theorem Config.fileName_isPlain : IsPlainName fileName := by
  constructor <;> decide

/-- A directory that is left without a configuration file, and the path to it. -/
structure LacksSettings (files : Files) (cwd directory : Location) : Prop where
  leads : files.locate cwd cwd.toPath = .ok directory
  isDirectory : files.get? directory = some .directory
  absent : files.get? (directory ++ [Config.fileName]) = none

/-- The files with the configuration file that `init` writes in some directory. -/
def Files.withSettings (files : Files) (directory : Location) : Files :=
  files.put (directory ++ [Config.fileName]) (.file (Text.toBytes Config.defaultText))

/-- What `init` does when it can be carried out: it finds something, or it adds the settings. -/
theorem initIn_ok {files after : Files} {base : Location} {path : Path} {result : Completion}
    (h : initIn files base path = .ok (result, after)) :
    (result = .initialized false /\ after = files) \/
      (result = .initialized true /\ exists directory,
        files.HasRoom base path Config.fileName directory /\
          after = files.withSettings directory) := by
  unfold initIn at h
  dsimp only at h
  split at h
  · cases h
    exact Or.inl ⟨rfl, rfl⟩
  · rename_i hmissing
    split at h
    · cases h
    · rename_i created hcreate
      cases h
      obtain ⟨directory, hroom, hafter⟩ :=
        Files.hasRoom_of_create Config.fileName_isPlain hmissing hcreate
      exact Or.inr ⟨rfl, directory, hroom, hafter⟩
  · cases h

theorem runInit_ok {files after : Files} {cwd : Location} {result : Completion}
    (h : runInit files cwd = .ok (result, after)) :
    after = files \/ exists directory,
      LacksSettings files cwd directory /\ after = files.withSettings directory := by
  rcases initIn_ok h with ⟨-, hsame⟩ | ⟨-, directory, hroom, hafter⟩
  · exact Or.inl hsame
  · refine Or.inr ⟨directory, ⟨?_, hroom.isDirectory, hroom.absent⟩, hafter⟩
    rw [Files.locate_ok_iff, Files.walk_segments_ok_iff hroom.isDirectory]
    exact ⟨hroom.taken.of_join (List.cons_ne_nil _ _), hroom.leads⟩

/-- Only `init` changes the files, and only when it can be carried out. -/
theorem runBy_files (measure : Text -> Nat) (files : Files) (invocation : Invocation) :
    (runBy measure files invocation).2 = files \/
      (Arguments.read invocation.arguments = .ok (some .init) /\
        (forall error, (runBy measure files invocation).1 ≠ .internal error) /\
        exists directory, LacksSettings files invocation.cwd directory /\
          (runBy measure files invocation).2 = files.withSettings directory) := by
  unfold runBy
  split
  · exact Or.inl rfl
  · exact Or.inl rfl
  · split
    · exact Or.inl rfl
    · exact Or.inl rfl
  · rename_i hread
    split
    · exact Or.inl rfl
    · rename_i result after hinit
      rcases runInit_ok hinit with hsame | ⟨directory, hlacks, hafter⟩
      · exact Or.inl hsame
      · exact Or.inr ⟨hread, finishBy_ne_internal _ _ _, directory, hlacks, hafter⟩

/-! ## Sequences of runs -/

/-- A run within a sequence, with the files that it finds and those that it leaves. -/
structure Episode where
  before : Files
  invocation : Invocation
  ending : Ending
  after : Files

def Episode.ofRun (measure : Text -> Nat) (files : Files) (invocation : Invocation) : Episode :=
  ⟨files, invocation, (runBy measure files invocation).1, (runBy measure files invocation).2⟩

/-- The runs that some invocations make one after the other. -/
def episodes (measure : Text -> Nat) (files : Files) : List Invocation -> List Episode
  | [] => []
  | invocation :: rest =>
      .ofRun measure files invocation :: episodes measure (runBy measure files invocation).2 rest

/-- The files that some runs leave. -/
def filesAfter (measure : Text -> Nat) (files : Files) : List Invocation -> Files
  | [] => files
  | invocation :: rest => filesAfter measure (runBy measure files invocation).2 rest

/-- A run of `init` puts the default settings in its directory, where nothing of that name stood. -/
structure Episode.Initializes (episode : Episode) (location : Location) (entry : Entry) :
    Prop where
  command : Arguments.read episode.invocation.arguments = .ok (some .init)
  place : exists directory, location = directory ++ [Config.fileName] /\
    LacksSettings episode.before episode.invocation.cwd directory /\
    ((∀ name ∈ episode.invocation.cwd, IsPlainName name) -> directory = episode.invocation.cwd)
  content : entry = .file (Text.toBytes Config.defaultText)

/-- What a single run may do to the files, and what it may write if it could not be carried out. -/
structure Episode.Keeps (episode : Episode) : Prop where
  kept : forall location entry,
    episode.before.get? location = some entry -> episode.after.get? location = some entry
  added : forall location entry, episode.before.get? location = none ->
    episode.after.get? location = some entry -> episode.Initializes location entry
  otherCommands : Arguments.read episode.invocation.arguments ≠ .ok (some .init) ->
    episode.after = episode.before
  internal : forall error, episode.ending = .internal error ->
    episode.after = episode.before /\
      forall wording, (episode.ending.output wording).stdout = []

theorem LacksSettings.initializes {measure : Text -> Nat} {files : Files}
    {invocation : Invocation} {directory location : Location} {entry : Entry}
    (hcommand : Arguments.read invocation.arguments = .ok (some .init))
    (hlacks : LacksSettings files invocation.cwd directory)
    (hafter : (runBy measure files invocation).2 = files.withSettings directory)
    (hbefore : files.get? location = none)
    (hentry : (runBy measure files invocation).2.get? location = some entry) :
    (Episode.ofRun measure files invocation).Initializes location entry := by
  rw [hafter, Files.withSettings] at hentry
  by_cases hlocation : location = directory ++ [Config.fileName]
  · rw [hlocation, Files.get?_put_self] at hentry
    exact ⟨hcommand, ⟨directory, hlocation, hlacks,
      fun hplain => Files.locate_plain hplain hlacks.isDirectory hlacks.leads⟩,
      (Option.some.inj hentry).symm⟩
  · rw [Files.get?_put_of_ne _ _ hlocation, hbefore] at hentry
    cases hentry

section Runs

variable (measure : Text -> Nat) (files : Files)

/-- The step: a single run keeps the files. -/
theorem Episode.ofRun_keeps (invocation : Invocation) :
    (ofRun measure files invocation).Keeps := by
  rcases runBy_files measure files invocation with
    hsame | ⟨hcommand, hending, directory, hlacks, hafter⟩
  · constructor
    · intro location entry hentry
      exact (congrArg (fun after => after.get? location) hsame).trans hentry
    · intro location entry hbefore hentry
      have hnone : (runBy measure files invocation).2.get? location = none := by
        rw [hsame]
        exact hbefore
      exact absurd (hnone.symm.trans hentry) nofun
    · exact fun _ => hsame
    · intro error herror
      refine ⟨hsame, fun wording => ?_⟩
      rw [herror]
      rfl
  · constructor
    · intro location entry hentry
      have hlocation : location ≠ directory ++ [Config.fileName] := by
        rintro rfl
        exact absurd (hlacks.absent.symm.trans hentry) nofun
      have hget := Files.get?_put_of_ne files
        (.file (Text.toBytes Config.defaultText)) hlocation
      exact (congrArg (fun after => after.get? location) hafter).trans (hget.trans hentry)
    · intro location entry hbefore hentry
      exact hlacks.initializes hcommand hafter hbefore hentry
    · exact fun hother => absurd hcommand hother
    · exact fun error herror => absurd herror (hending error)

theorem episodes_keep (invocations : List Invocation) :
    ∀ episode ∈ episodes measure files invocations, episode.Keeps := by
  induction invocations generalizing files with
  | nil => exact nofun
  | cons invocation rest ih =>
      rw [episodes, List.forall_mem_cons]
      exact ⟨Episode.ofRun_keeps measure files invocation, ih _⟩

theorem filesAfter_kept (invocations : List Invocation) {location : Location} {entry : Entry}
    (h : files.get? location = some entry) :
    (filesAfter measure files invocations).get? location = some entry := by
  induction invocations generalizing files with
  | nil => exact h
  | cons invocation rest ih =>
      exact ih _ ((Episode.ofRun_keeps measure files invocation).kept location entry h)

/-- What stands anywhere at the end stood there at first, or one of the runs added it. -/
theorem filesAfter_added (invocations : List Invocation) {location : Location} {entry : Entry}
    (h : (filesAfter measure files invocations).get? location = some entry) :
    files.get? location = some entry \/
      exists episode, episode ∈ episodes measure files invocations /\
        episode.Initializes location entry := by
  induction invocations generalizing files with
  | nil => exact Or.inl h
  | cons invocation rest ih =>
      have hkeeps := Episode.ofRun_keeps measure files invocation
      rcases ih _ h with hafter | ⟨episode, hepisode, hadds⟩
      · cases hbefore : files.get? location with
        | none =>
            exact Or.inr ⟨_, List.mem_cons_self, hkeeps.added location entry hbefore hafter⟩
        | some old =>
            have hold := hkeeps.kept location old hbefore
            exact Or.inl (hold.symm.trans hafter)
      · exact Or.inr ⟨episode, List.mem_cons_of_mem _ hepisode, hadds⟩

/--
In every sequence of runs, each run keeps all entries as they are and adds nothing
but the settings of an `init` run.  So the whole sequence keeps the first files,
and everything else that it leaves is a configuration file that one of its runs
added.
-/
theorem runs_keep_the_files (invocations : List Invocation) :
    (∀ episode ∈ episodes measure files invocations, episode.Keeps) /\
      (forall location entry, files.get? location = some entry ->
        (filesAfter measure files invocations).get? location = some entry) /\
      (forall location entry,
        (filesAfter measure files invocations).get? location = some entry ->
          files.get? location = some entry \/
            exists episode, episode ∈ episodes measure files invocations /\
              episode.Initializes location entry) :=
  ⟨episodes_keep measure files invocations,
    fun _ _ => filesAfter_kept measure files invocations,
    fun _ _ => filesAfter_added measure files invocations⟩

end Runs

/-! ## Two initial runs -/

/-- Files of a system with nothing but the root. -/
def bareRoot : Files :=
  ⟨fun location => if location = [] then some .directory else none⟩

/-- Runs of `init` with unusable arguments between them. -/
def initTwice : List Invocation :=
  [["init"], ["init", "twice"], ["init"]].map fun words =>
    ⟨words.map String.toList, .empty, [], false⟩

/-- The settings that are there after the runs were added by one of them. -/
theorem initTwice_adds_settings :
    (filesAfter Text.displayWidth bareRoot initTwice).get? [Config.fileName] =
        some (.file (Text.toBytes Config.defaultText)) /\
      exists episode, episode ∈ episodes Text.displayWidth bareRoot initTwice /\
        episode.Initializes [Config.fileName] (.file (Text.toBytes Config.defaultText)) := by
  have hafter : (filesAfter Text.displayWidth bareRoot initTwice).get? [Config.fileName] =
      some (.file (Text.toBytes Config.defaultText)) := by
    rfl
  have hadded := (runs_keep_the_files Text.displayWidth bareRoot initTwice).2.2 _ _ hafter
  exact ⟨hafter, hadded.resolve_left nofun⟩

end TranslationKeys

import Mathlib.Data.List.Basic
import TranslationKeys.Files.Path

/-!
# Segments of paths

A path is the same as its segments and the slash that it may start with.  What a
name is joined to is the stem of a path: its segments without an empty one at the
end.  Going up from a path shortens its stem, and so it comes to an end.
-/

namespace TranslationKeys.Path

/-! ## Texts between slashes -/

theorem split_ne_nil (text : Text) : split text ≠ [] := by
  fun_induction split text <;> simp_all

/-- A slash divides the segments of a text. -/
theorem split_append_slash (front back : Text) :
    split (front ++ '/' :: back) = split front ++ split back := by
  fun_induction split front with
  | case1 => rfl
  | case2 rest ih => simp [split, ih]
  | case3 c rest hslash hnone ih => exact absurd hnone (split_ne_nil rest)
  | case4 c rest hslash first more hsegments ih =>
      rw [hsegments] at ih
      rw [List.cons_append, split, ih]
      · rfl
      · exact hslash

theorem split_of_not_mem {name : Text} (h : '/' ∉ name) : split name = [name] := by
  induction name with
  | nil => rfl
  | cons c rest ih =>
      rw [List.mem_cons, not_or] at h
      rw [split, ih h.2]
      rintro rfl
      exact h.1 rfl

theorem slash_not_mem_split (text : Text) : ∀ segment ∈ split text, '/' ∉ segment := by
  fun_induction split text with
  | case1 => simp
  | case2 rest ih => simpa using ih
  | case3 c rest hslash hnone ih => exact absurd hnone (split_ne_nil rest)
  | case4 c rest hslash first more hsegments ih =>
      rw [hsegments, List.forall_mem_cons] at ih
      rw [List.forall_mem_cons]
      refine ⟨?_, ih.2⟩
      rw [List.mem_cons, not_or]
      exact ⟨fun hc => hslash hc.symm, ih.1⟩

/-- Every slash starts one more segment. -/
theorem length_split (text : Text) : (split text).length = text.count '/' + 1 := by
  fun_induction split text with
  | case1 => rfl
  | case2 rest ih => simp [ih]
  | case3 c rest hslash hnone ih => exact absurd hnone (split_ne_nil rest)
  | case4 c rest hslash first more hsegments ih =>
      have hc : c ≠ '/' := hslash
      rw [hsegments, List.length_cons] at ih
      rw [List.length_cons, ih, List.count_cons_of_ne hc]

theorem intercalate_cons {segment : Text} {segments : List Text} (h : segments ≠ []) :
    ['/'].intercalate (segment :: segments) = segment ++ '/' :: ['/'].intercalate segments := by
  obtain ⟨second, more, rfl⟩ := List.exists_cons_of_ne_nil h
  simp [List.intercalate]

theorem intercalate_append (front : List Text) {back : List Text} (h : back ≠ []) :
    ['/'].intercalate (front ++ back) =
      (front.flatMap fun segment => segment ++ ['/']) ++ ['/'].intercalate back := by
  induction front with
  | nil => rfl
  | cons segment rest ih =>
      rw [List.cons_append, intercalate_cons (List.append_ne_nil_of_right_ne_nil rest h), ih]
      simp

theorem intercalate_concat (front : List Text) (segment : Text) :
    ['/'].intercalate (front ++ [segment]) =
      (front.flatMap fun segment => segment ++ ['/']) ++ segment := by
  rw [intercalate_append front (List.cons_ne_nil segment [])]
  simp [List.intercalate]

theorem intercalate_split (text : Text) : ['/'].intercalate (split text) = text := by
  fun_induction split text with
  | case1 => rfl
  | case2 rest ih => rw [intercalate_cons (split_ne_nil rest), ih, List.nil_append]
  | case3 c rest hslash hnone ih => exact absurd hnone (split_ne_nil rest)
  | case4 c rest hslash first more hsegments ih =>
      rw [hsegments] at ih
      rw [← ih]
      cases more with
      | nil => simp [List.intercalate]
      | cons second tail => simp [List.intercalate]

theorem split_intercalate {segments : List Text} (hsegments : segments ≠ [])
    (hslash : ∀ segment ∈ segments, '/' ∉ segment) :
    split (['/'].intercalate segments) = segments := by
  induction segments with
  | nil => exact absurd rfl hsegments
  | cons segment rest ih =>
      rw [List.forall_mem_cons] at hslash
      cases rest with
      | nil => simpa [List.intercalate] using split_of_not_mem hslash.1
      | cons second more =>
          rw [intercalate_cons (List.cons_ne_nil second more), split_append_slash,
            split_of_not_mem hslash.1, ih (List.cons_ne_nil second more) hslash.2]
          rfl

/-- The last segment is empty exactly if nothing stands behind the last slash. -/
theorem getLast?_split_iff {text : Text} :
    (split text).getLast? = some [] <-> text = [] \/ text.getLast? = some '/' := by
  constructor
  · intro hlast
    obtain ⟨front, hfront⟩ := List.getLast?_eq_some_iff.1 hlast
    rw [← intercalate_split text, hfront]
    rcases List.eq_nil_or_concat' front with rfl | ⟨upper, segment, rfl⟩
    · exact Or.inl rfl
    · refine Or.inr ?_
      rw [intercalate_concat]
      simp
  · rintro (rfl | hlast)
    · rfl
    · obtain ⟨front, rfl⟩ := List.getLast?_eq_some_iff.1 hlast
      rw [split_append_slash]
      exact List.getLast?_concat

/-! ## Segments and text -/

/-- A path without the slash that it may start with. -/
def body (path : Path) : Text :=
  if path.isAbsolute then path.text.tail else path.text

theorem segments_eq (path : Path) : path.segments = split path.body := by
  unfold segments body
  split <;> rfl

theorem text_eq (path : Path) :
    path.text = (if path.isAbsolute then ['/'] else []) ++ path.body := by
  unfold body
  split
  · rename_i habsolute
    rw [isAbsolute, beq_iff_eq, List.head?_eq_some_iff] at habsolute
    obtain ⟨rest, hrest⟩ := habsolute
    rw [hrest]
    rfl
  · rfl

theorem ofSegments_segments (path : Path) : ofSegments path.isAbsolute path.segments = path := by
  rw [ofSegments, segments_eq, intercalate_split, ← text_eq]

/-- Only the empty path is relative and starts with an empty segment. -/
theorem head?_body_of_relative {path : Path} (h : path.isAbsolute = false) :
    path.body.head? ≠ some '/' := by
  rw [body, h]
  simpa [isAbsolute] using h

/-! ## Joined names -/

/-- The segments that a name is joined to. -/
def stem (path : Path) : List Text :=
  if path.segments.getLast? = some [] then path.segments.dropLast else path.segments

theorem segments_eq_stem_or (path : Path) :
    path.segments = path.stem \/ path.segments = path.stem ++ [[]] := by
  unfold stem
  split
  · rename_i hlast
    obtain ⟨front, hfront⟩ := List.getLast?_eq_some_iff.1 hlast
    rw [hfront, List.dropLast_concat]
    exact Or.inr rfl
  · exact Or.inl rfl

theorem slash_not_mem_stem (path : Path) : ∀ segment ∈ path.stem, '/' ∉ segment := by
  intro segment hsegment
  apply slash_not_mem_split path.body
  rw [← segments_eq]
  rcases path.segments_eq_stem_or with h | h <;> rw [h]
  · exact hsegment
  · exact List.mem_append_left _ hsegment

section Join

variable {path : Path} {name : Text}

theorem isAbsolute_join (h : '/' ∉ name) : (path.join name).isAbsolute = path.isAbsolute := by
  obtain ⟨text⟩ := path
  cases text with
  | nil =>
      have hhead : name.head? ≠ some '/' := fun hhead => h (List.mem_of_head? hhead)
      simp [join, isAbsolute, hhead]
  | cons c rest =>
      unfold join
      split <;> rfl

/-- A slash divides the name from the body, unless nothing or a slash stands in front of it. -/
theorem body_join (h : '/' ∉ name) :
    (path.join name).body =
      if path.body = [] \/ path.body.getLast? = some '/' then path.body ++ name
      else path.body ++ '/' :: name := by
  have habsolute : (path.join name).isAbsolute = path.isAbsolute := isAbsolute_join h
  obtain ⟨text⟩ := path
  rw [body, habsolute]
  rcases text with _ | ⟨c, rest⟩
  · simp [body, join, isAbsolute]
  · by_cases hslash : c = '/'
    · subst hslash
      cases rest with
      | nil => simp [body, join, isAbsolute]
      | cons second more =>
          simp only [body, join, isAbsolute, List.head?_cons, List.isEmpty_cons, Bool.false_or,
            beq_self_eq_true, if_true, List.tail_cons, List.getLast?_cons_cons, beq_iff_eq,
            List.cons_ne_nil, false_or]
          split <;> rfl
    · have hrelative : isAbsolute ⟨c :: rest⟩ = false := by simpa [isAbsolute] using hslash
      simp only [body, hrelative, join, List.isEmpty_cons, Bool.false_or, beq_iff_eq,
        List.cons_ne_nil, false_or, Bool.false_eq_true, if_false]
      split <;> rfl

/-- The name is the last segment of a path that it is joined to. -/
theorem segments_join (h : '/' ∉ name) : (path.join name).segments = path.stem ++ [name] := by
  rw [segments_eq, body_join h, stem, segments_eq]
  simp only [getLast?_split_iff]
  split
  · rename_i hend
    rcases hend with hempty | hlast
    · rw [hempty, List.nil_append, split_of_not_mem h]
      rfl
    · obtain ⟨front, hfront⟩ := List.getLast?_eq_some_iff.1 hlast
      rw [hfront, List.append_assoc, List.singleton_append, split_append_slash,
        split_append_slash, split_of_not_mem h]
      exact congrArg (· ++ [name]) List.dropLast_concat.symm
  · rw [split_append_slash, split_of_not_mem h]

theorem join_eq_ofSegments (h : '/' ∉ name) :
    path.join name = ofSegments path.isAbsolute (path.stem ++ [name]) := by
  rw [← segments_join h, ← isAbsolute_join h, ofSegments_segments]

/-- A joined path is its stem with a slash behind each segment, and then the name. -/
theorem join_text (h : '/' ∉ name) :
    (path.join name).text = (if path.isAbsolute then ['/'] else []) ++
      ((path.stem.flatMap fun segment => segment ++ ['/']) ++ name) := by
  rw [join_eq_ofSegments h, ofSegments, intercalate_concat]

end Join

/-! ## Segments that name nothing -/

/-- A segment that leads nowhere else. -/
def IsNameless (segment : Text) : Prop :=
  segment = [] \/ segment = ['.']

theorem dropNameless_cons_empty (absolute : Bool) (above : List Text) :
    dropNameless absolute ([] :: above) = dropNameless absolute above := by
  cases above <;> rfl

theorem dropNameless_of_name (absolute : Bool) {segment : Text} (h : ¬ IsNameless segment)
    (above : List Text) : dropNameless absolute (segment :: above) = segment :: above := by
  rw [IsNameless, not_or] at h
  cases above <;> simp [dropNameless, h]

/-- What is dropped names nothing. -/
theorem dropNameless_eq (absolute : Bool) (segments : List Text) :
    exists dropped, segments = dropped ++ dropNameless absolute segments /\
      ∀ segment ∈ dropped, IsNameless segment := by
  fun_induction dropNameless absolute segments with
  | case1 => exact ⟨[], rfl, nofun⟩
  | case2 start hstart =>
      refine ⟨[start], rfl, ?_⟩
      rw [List.forall_mem_singleton]
      simp only [Bool.or_eq_true, Bool.and_eq_true, beq_iff_eq] at hstart
      exact hstart.imp_right And.right
  | case3 start hstart => exact ⟨[], rfl, nofun⟩
  | case4 segment above habove hsegment ih =>
      obtain ⟨dropped, hdropped, hall⟩ := ih
      refine ⟨segment :: dropped, by rw [List.cons_append, ← hdropped], ?_⟩
      rw [List.forall_mem_cons]
      exact ⟨by simpa [IsNameless] using hsegment, hall⟩
  | case5 segment above habove hsegment => exact ⟨[], rfl, nofun⟩

theorem head?_dropNameless (absolute : Bool) (segments : List Text) :
    (dropNameless absolute segments).head? ≠ some [] := by
  fun_induction dropNameless absolute segments with
  | case1 => nofun
  | case2 start hstart => nofun
  | case3 start hstart =>
      intro hhead
      cases hhead
      exact hstart rfl
  | case4 segment above habove hsegment ih => exact ih
  | case5 segment above habove hsegment =>
      intro hhead
      cases hhead
      exact hsegment rfl

/-! ## Paths of some first segments -/

/-- The path of some segments, without those at its end that name nothing. -/
def upTo (absolute : Bool) (front : List Text) : Path :=
  ofSegments absolute (dropNameless absolute front.reverse).reverse

/-- A path without the segments at its end that name nothing. -/
def trim (path : Path) : Path :=
  upTo path.isAbsolute path.stem

theorem ofSegments_stem {absolute : Bool} {segments : List Text}
    (hslash : ∀ segment ∈ segments, '/' ∉ segment) (hlast : segments.getLast? ≠ some [])
    (hhead : absolute = false -> segments.head? ≠ some []) :
    (ofSegments absolute segments).isAbsolute = absolute /\
      (ofSegments absolute segments).stem = segments := by
  have habsolute : (ofSegments absolute segments).isAbsolute = absolute := by
    cases absolute with
    | true => rfl
    | false =>
        rcases segments with _ | ⟨_ | ⟨c, name⟩, rest⟩
        · rfl
        · exact absurd rfl (hhead rfl)
        · have hc : c ≠ '/' := by
            have hname := hslash _ List.mem_cons_self
            rw [List.mem_cons, not_or] at hname
            exact Ne.symm hname.1
          cases rest <;> simp [ofSegments, isAbsolute, List.intercalate, hc]
  have hbody : (ofSegments absolute segments).body = ['/'].intercalate segments := by
    rw [body, habsolute]
    cases absolute <;> rfl
  refine ⟨habsolute, ?_⟩
  rw [stem, segments_eq, hbody]
  by_cases hempty : segments = []
  · rw [hempty]
    rfl
  · rw [split_intercalate hempty hslash, if_neg hlast]

theorem head?_stem_of_relative {path : Path} (h : path.isAbsolute = false) :
    path.stem.head? ≠ some [] := by
  intro hhead
  obtain ⟨rest, hstem⟩ := List.head?_eq_some_iff.1 hhead
  have hsegments : exists more, path.segments = [] :: more := by
    rcases path.segments_eq_stem_or with hsame | hsame <;> rw [hsame, hstem]
    · exact ⟨rest, rfl⟩
    · exact ⟨rest ++ [[]], rfl⟩
  obtain ⟨more, hmore⟩ := hsegments
  have hbody := intercalate_split path.body
  rw [← segments_eq, hmore] at hbody
  cases more with
  | nil =>
      have hempty : path.stem = [] := by
        rw [stem, hmore]
        rfl
      rw [hempty] at hstem
      cases hstem
  | cons second others =>
      apply head?_body_of_relative h
      rw [← hbody, intercalate_cons (List.cons_ne_nil second others)]
      rfl

/-- The stem of some first segments of a path holds those that name something. -/
theorem upTo_stem {path : Path} {front : List Text} (h : front <+: path.stem) :
    (upTo path.isAbsolute front).isAbsolute = path.isAbsolute /\
      (upTo path.isAbsolute front).stem = (dropNameless path.isAbsolute front.reverse).reverse := by
  obtain ⟨dropped, hdropped, -⟩ := dropNameless_eq path.isAbsolute front.reverse
  have hfirst : (dropNameless path.isAbsolute front.reverse).reverse <+: path.stem := by
    refine List.IsPrefix.trans ⟨dropped.reverse, ?_⟩ h
    rw [← List.reverse_append, ← hdropped, List.reverse_reverse]
  apply ofSegments_stem
  · exact fun segment hsegment => path.slash_not_mem_stem segment (hfirst.subset hsegment)
  · rw [List.getLast?_reverse]
    exact head?_dropNameless _ _
  · intro hrelative hhead
    obtain ⟨rest, hrest⟩ := List.head?_eq_some_iff.1 hhead
    obtain ⟨more, hmore⟩ := hfirst
    apply head?_stem_of_relative hrelative
    rw [← hmore, hrest]
    rfl

/-- A path is its trimmed path and segments that name nothing. -/
theorem stem_trim (path : Path) :
    path.trim.isAbsolute = path.isAbsolute /\
      exists dropped, path.stem = path.trim.stem ++ dropped /\
      ∀ segment ∈ dropped, IsNameless segment := by
  obtain ⟨habsolute, htrim⟩ := upTo_stem (List.prefix_refl path.stem)
  obtain ⟨dropped, hdropped, hnameless⟩ := dropNameless_eq path.isAbsolute path.stem.reverse
  refine ⟨habsolute, dropped.reverse, ?_, fun segment hsegment => ?_⟩
  · rw [trim, htrim, ← List.reverse_append, ← hdropped, List.reverse_reverse]
  · exact hnameless segment (List.mem_reverse.1 hsegment)

/-! ## Going up -/

theorem dropNameless_segments (path : Path) :
    dropNameless path.isAbsolute path.segments.reverse =
      dropNameless path.isAbsolute path.stem.reverse := by
  rcases path.segments_eq_stem_or with h | h <;> rw [h]
  rw [List.reverse_append, List.reverse_singleton, List.singleton_append, dropNameless_cons_empty]

/-- Going up drops the last name of the stem. -/
theorem parent?_eq_some_iff {path above : Path} :
    path.parent? = some above <->
      exists name front, dropNameless path.isAbsolute path.stem.reverse = name :: front /\
        above = upTo path.isAbsolute front.reverse := by
  unfold parent? upTo
  rw [dropNameless_segments]
  cases dropNameless path.isAbsolute path.stem.reverse with
  | nil => simp
  | cons name front =>
      simp only [Option.some.injEq, List.cons.injEq, List.reverse_reverse]
      constructor
      · rintro rfl
        exact ⟨name, front, ⟨rfl, rfl⟩, rfl⟩
      · rintro ⟨_, _, ⟨rfl, rfl⟩, rfl⟩
        rfl

/-- Going up keeps to the root and shortens the stem. -/
theorem stem_of_parent? {path above : Path} (h : path.parent? = some above) :
    above.isAbsolute = path.isAbsolute /\ above.stem.length < path.stem.length := by
  obtain ⟨name, front, hfront, rfl⟩ := parent?_eq_some_iff.1 h
  obtain ⟨dropped, hdropped, -⟩ := dropNameless_eq path.isAbsolute path.stem.reverse
  have hstem : path.stem = front.reverse ++ (dropped ++ [name]).reverse := by
    rw [hfront] at hdropped
    rw [← List.reverse_append, List.append_assoc, List.singleton_append, ← hdropped,
      List.reverse_reverse]
  obtain ⟨habsolute, hupper⟩ := upTo_stem ⟨_, hstem.symm⟩
  refine ⟨habsolute, ?_⟩
  obtain ⟨more, hmore, -⟩ := dropNameless_eq path.isAbsolute front
  have hlength := congrArg List.length hmore
  rw [hupper, hstem]
  simp only [List.reverse_reverse, List.length_reverse, List.length_append, List.length_cons,
    List.length_nil] at hlength ⊢
  omega

section Join

variable {path : Path} {name : Text}

theorem stem_join (hname : name ≠ []) (hslash : '/' ∉ name) :
    (path.join name).stem = path.stem ++ [name] := by
  rw [stem, segments_join hslash, List.getLast?_concat, if_neg]
  exact fun hempty => hname (Option.some.inj hempty)

/-- Above a joined name is the path that it was joined to. -/
theorem parent?_join (hname : ¬ IsNameless name) (hslash : '/' ∉ name) :
    (path.join name).parent? = some path.trim := by
  have hnonempty : name ≠ [] := fun hempty => hname (Or.inl hempty)
  rw [parent?_eq_some_iff, isAbsolute_join hslash, stem_join hnonempty hslash,
    List.reverse_append, List.reverse_singleton, List.singleton_append,
    dropNameless_of_name _ hname]
  exact ⟨name, path.stem.reverse, rfl, by rw [List.reverse_reverse, trim]⟩

theorem trim_join (hname : ¬ IsNameless name) (hslash : '/' ∉ name) :
    (path.join name).trim = path.join name := by
  have hnonempty : name ≠ [] := fun hempty => hname (Or.inl hempty)
  rw [trim, upTo, stem_join hnonempty hslash, List.reverse_append, List.reverse_singleton,
    List.singleton_append, dropNameless_of_name _ hname, ← List.singleton_append,
    ← List.reverse_singleton, ← List.reverse_append, List.reverse_reverse,
    isAbsolute_join hslash, join_eq_ofSegments hslash]

end Join

/-- A path has at least as many characters as segments in its stem. -/
theorem length_stem_le (path : Path) : path.stem.length <= path.text.length := by
  have hbody : path.body.length <= path.text.length := by
    rw [path.text_eq, List.length_append]
    omega
  have hcount := length_split path.body
  rw [stem, segments_eq]
  simp only [getLast?_split_iff]
  split
  · have hslashes := List.count_le_length (a := '/') (l := path.body)
    rw [List.length_dropLast]
    omega
  · rename_i hend
    rw [not_or] at hend
    rcases List.eq_nil_or_concat' path.body with hempty | ⟨front, c, hfront⟩
    · exact absurd hempty hend.1
    · have hc : c ≠ '/' := by simpa [hfront] using hend.2
      have hslashes := List.count_le_length (a := '/') (l := front)
      rw [hfront] at hbody hcount ⊢
      simp only [List.count_append, List.count_singleton, beq_iff_eq, hc, if_false,
        List.length_append, List.length_singleton] at hbody hcount
      omega

end TranslationKeys.Path

import Easel.Files.Store

/-!
# Where paths lead

If a store can follow a path at all, the path leads to its place: the location that its names spell
out, whatever the store holds on the way. The place of a path seen from another one lies below the
place of that one as long as the path is relative and leads back no further than it came.
-/

namespace Easel

/-! ## The names of a path -/

namespace FilePath

/-- A name goes on up to the next slash. -/
theorem splitOn_cons {c : Char} (hc : c ≠ '/') (rest : List Char) :
    ∃ part parts, rest.splitOn '/' = part :: parts ∧
      (c :: rest).splitOn '/' = (c :: part) :: parts := by
  obtain ⟨part, parts, h⟩ := List.exists_cons_of_ne_nil (List.splitOn_ne_nil '/' rest)
  exact ⟨part, parts, h, by simp [List.splitOn_cons_eq_if_modifyHead, hc, h]⟩

section

-- Only this lemma follows the characters; after it the names are those between the slashes.
attribute [local simp] names

theorem names_eq_splitOn (cs : List Char) : names cs = (cs.splitOn '/').filter (· ≠ []) := by
  induction cs with
  | nil => rfl
  | cons c rest ih =>
    by_cases hc : c = '/'
    · subst hc
      simp [ih, List.splitOn_cons_eq_if_modifyHead]
    · obtain ⟨part, parts, hrest, hwhole⟩ := splitOn_cons hc rest
      rw [hrest] at ih
      rw [hwhole]
      cases rest with
      | nil => simp_all
      | cons d rest =>
        by_cases hd : d = '/'
        · subst hd
          simp_all [List.splitOn_cons_eq_if_modifyHead]
        · obtain ⟨_, _, -, h⟩ := splitOn_cons hd rest
          obtain ⟨rfl, rfl⟩ : _ ∧ _ := by simpa using hrest.symm.trans h
          simpa using names.eq_5 c _ _ _ hc (by simp) (by simpa using hd) (by simpa using ih)

end

theorem names_append_slash (a b : List Char) : names (a ++ '/' :: b) = names a ++ names b := by
  simp [names_eq_splitOn, List.splitOn_append_cons_self]

theorem names_of_not_mem {cs : List Char} (h : '/' ∉ cs) (hne : cs ≠ []) : names cs = [cs] := by
  simp [names_eq_splitOn, List.splitOn_eq_singleton h, hne]

theorem steps_of_not_mem {name : String} (h : '/' ∉ name.toList) (hempty : name ≠ "")
    (hdot : name ≠ ".") : steps name = [name] := by
  have hdot' : name.toList ≠ ['.'] := fun hn => hdot (String.toList_inj.1 hn)
  simp [steps, names_of_not_mem h (by simpa using hempty), hdot']

/-! ### Joined paths -/

theorem names_join {base rest : String} (h : isAbsolute rest = false) :
    names (join base rest).toList = names base.toList ++ names rest.toList := by
  by_cases hempty : base = ""
  · simp [join, h, hempty, names]
  by_cases hlast : base.toList.getLast? = some '/'
  · obtain ⟨front, hfront⟩ := List.getLast?_eq_some_iff.1 hlast
    have hbase : names base.toList = names front := by
      rw [hfront, names_append_slash]
      simp [names]
    rw [hbase, ← names_append_slash]
    simp [join, h, hfront]
  · rw [← names_append_slash]
    simp [join, h, hempty, hlast]

/-- The steps of a relative path go on from those of the path it is seen from. -/
theorem steps_join {base rest : String} (h : isAbsolute rest = false) :
    steps (join base rest) = steps base ++ steps rest := by
  simp [steps, names_join h]

theorem join_of_isAbsolute (base : String) {rest : String} (h : isAbsolute rest = true) :
    join base rest = rest := by
  simp [join, h]

theorem isAbsolute_join {base rest : String} (h : isAbsolute rest = false) :
    isAbsolute (join base rest) = isAbsolute base := by
  unfold join
  rw [h]
  by_cases hempty : base = ""
  · subst hempty
    exact (by simpa [isAbsolute] using h)
  · obtain ⟨c, cs, hbase⟩ := List.exists_cons_of_ne_nil (by simpa using hempty : base.toList ≠ [])
    simp only [Bool.false_eq_true, if_false]
    split <;> simp [isAbsolute, hbase]

/-! ### Endings of names -/

/-- A path ends in a part without a slash, and before it comes nothing or a slash. -/
theorem exists_last_part (cs : List Char) :
    ∃ front last, cs = front ++ last ∧ '/' ∉ last ∧ ∀ rest, names (front ++ rest) =
      names front ++ names rest := by
  by_cases hmem : '/' ∈ cs
  · obtain ⟨after, before, hcs, hafter⟩ :=
      List.eq_append_cons_of_mem (List.mem_reverse.2 hmem)
    refine ⟨before.reverse ++ ['/'], after.reverse, ?_, by simpa using hafter, fun rest => ?_⟩
    · simpa using congrArg List.reverse hcs
    · simp [names_append_slash, names]
  · exact ⟨[], cs, rfl, hmem, fun rest => by simp [names]⟩

/-- What is put behind a path goes into its last name. Where the path ends in none, it is a name of
its own, or one behind the point that the path ends with. -/
theorem steps_append (path : String) {ending : String} (hslash : '/' ∉ ending.toList)
    (hempty : ending ≠ "") (hdot : ending ≠ ".") :
    ∃ front last, steps (path ++ ending) = front ++ [last ++ ending] ∧
      (steps path = front ∧ (last = "" ∨ last = ".") ∨ steps path = front ++ [last]) := by
  obtain ⟨front, last, hpath, hlast, hnames⟩ := exists_last_part path.toList
  have hne : last ++ ending.toList ≠ [] := by simp [hempty]
  have hnodot : last ++ ending.toList ≠ ['.'] := by
    intro h
    rcases List.append_eq_cons_iff.1 h with ⟨-, h⟩ | ⟨_, -, h⟩
    · exact hdot (String.toList_inj.1 h)
    · exact hempty (String.toList_eq_nil_iff.1 (List.append_eq_nil_iff.1 h.symm).2)
  refine ⟨((names front).filter (· ≠ ['.'])).map String.ofList, String.ofList last, ?_, ?_⟩
  · have hnot : '/' ∉ last ++ ending.toList := by simp [hlast, hslash]
    simp [steps, hpath, hnames, names_of_not_mem hnot hne, hnodot]
  · by_cases hn : last = []
    · simp [steps, hpath, hn]
    by_cases hd : last = ['.']
    · simp [steps, hpath, hnames, hd, names]
    · simp [steps, hpath, hnames, names_of_not_mem hlast hn, hd]

/-- A path that leads to something below the place it is seen from, wherever that is: it is
relative, and at no point has it led back more often than forth. -/
def staysBelow (path : String) : Bool := !isAbsolute path && descends 0 (steps path)
where
  /-- Whether names never lead out of a directory that is `depth` directories up. -/
  descends : Nat → List String → Bool
    | _, [] => true
    | 0, name :: rest => name ≠ ".." && descends 1 rest
    | depth + 1, name :: rest =>
      if name = ".." then descends depth rest else descends (depth + 2) rest

theorem staysBelow.descends_of_append {depth : Nat} {names rest : List String}
    (h : descends depth (names ++ rest) = true) : descends depth names = true := by
  fun_induction descends depth names with
  | case1 => rfl
  | case2 name names ih => simp_all [descends]
  | case3 depth names ih => simp_all [descends]
  | case4 depth name names hname ih => simp_all [descends]

end FilePath

/-! ## Places -/

namespace Location

/-- Where names lead from a location, with no regard to what is there. -/
def walk (l : Location) (names : List String) : Location :=
  names.foldl (fun l name => if name = ".." then l.dropLast else l ++ [name]) l

theorem walk_append (l : Location) (names rest : List String) :
    l.walk (names ++ rest) = (l.walk names).walk rest :=
  List.foldl_append

theorem walk_singleton (l : Location) {name : String} (h : name ≠ "..") :
    l.walk [name] = l ++ [name] := by
  simp [walk, h]

/-- Names that do not lead out of a directory lead to something below it. -/
theorem prefix_walk (base inner : Location) {names : List String}
    (h : FilePath.staysBelow.descends inner.length names = true) :
    base <+: (base ++ inner).walk names := by
  induction names generalizing inner with
  | nil => exact List.prefix_append _ _
  | cons name names ih =>
    by_cases hname : name = ".."
    · -- there is something to lead back from, since the names do not lead out
      obtain ⟨depth, hdepth⟩ : ∃ depth, inner.length = depth + 1 := by
        cases hlen : inner.length with
        | zero => simp [hlen, hname, FilePath.staysBelow.descends] at h
        | succ depth => exact ⟨depth, rfl⟩
      have hne : inner ≠ [] := fun hnil => by simp [hnil] at hdepth
      have hlen : inner.dropLast.length = depth := by simp [hdepth]
      have hrest : FilePath.staysBelow.descends inner.dropLast.length names = true := by
        rw [hlen]
        simpa [hdepth, hname, FilePath.staysBelow.descends] using h
      simpa [walk, hname, List.dropLast_append_of_ne_nil hne] using ih inner.dropLast hrest
    · have hrest : FilePath.staysBelow.descends (inner ++ [name]).length names = true := by
        cases hlen : inner.length with
        | zero => simpa [hlen, hname, FilePath.staysBelow.descends] using h
        | succ depth => simpa [hlen, hname, FilePath.staysBelow.descends] using h
      simpa [walk, hname] using ih (inner ++ [name]) hrest

end Location

namespace FileStore

/-- The location that a path spells out. -/
@[irreducible] def place (s : FileStore) (path : String) : Location :=
  Location.walk (if FilePath.isAbsolute path then [] else s.here) (FilePath.steps path)

theorem follow_eq_ok {s : FileStore} {l l' : Location} {names : List String}
    (h : s.follow l names = .ok l') : l' = l.walk names := by
  fun_induction follow s l names with
  | case1 l => exact (Except.ok.inj h).symm
  | case3 l name => exact (Except.ok.inj h).symm
  | case4 l name rest hshort next hrest hdirectory ih => exact ih h
  -- the names lead to something that is no directory, or to nothing
  | case2 | case5 | case6 => cases h

/-- A path that can be followed leads to its place. -/
theorem locate_eq_ok {s : FileStore} {path : String} {l : Location} (h : s.locate path = .ok l) :
    l = s.place path := by
  simp only [locate, bind, Except.bind, pure, Except.pure, throw, throwThe,
    MonadExceptOf.throw] at h
  split at h
  · cases h
  split at h
  · cases h
  split at h
  · cases h
  split at h
  · cases h
  rename_i l' hfollow
  have hl : l' = l := by
    split at h
    · split at h
      · cases h
      · exact Except.ok.inj h
    · exact Except.ok.inj h
  rw [← hl, follow_eq_ok hfollow, place]

theorem place_join (s : FileStore) (base rest : String) :
    s.place (FilePath.join base rest) = Location.walk
      (if FilePath.isAbsolute rest then [] else s.place base) (FilePath.steps rest) := by
  cases h : FilePath.isAbsolute rest with
  | true => simp [place, FilePath.join_of_isAbsolute base h, h]
  | false => simp [place, FilePath.steps_join h, FilePath.isAbsolute_join h, Location.walk_append]

end FileStore

end Easel

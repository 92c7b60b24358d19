import Easel.Proofs.Files.Places

/-!
# What becomes of files

Making directories changes no file, and writing a file changes that file alone. So after pictures
have been saved one after the other, every file among their places holds the last picture saved
there, and every other file is what it was.
-/

namespace Easel.FileStore

/-! ## Single nodes -/

theorem get?_put_self (s : FileStore) {l : Location} (h : l ≠ []) (node : FileNode) :
    (s.put l node).get? l = some node := by
  simp [get?, put, h]

theorem get?_put_of_ne (s : FileStore) {l k : Location} (h : k ≠ l) (node : FileNode) :
    (s.put l node).get? k = s.get? k := by
  have hfilter : (s.nodes.filter fun e => e.1 != l).lookup k = s.nodes.lookup k := by
    induction s.nodes with
    | nil => rfl
    | cons e es ih => grind
  have hne : (k == l) = false := by simpa using h
  simp [get?, put, List.lookup_cons, hne, hfilter]

theorem mem_nodes_of_get? {s : FileStore} {l : Location} {content : FileContent}
    (h : s.get? l = some (.file content)) : (l, .file content) ∈ s.nodes := by
  unfold get? at h
  split at h
  · cases h
  · obtain ⟨before, after, hnodes, -⟩ := List.lookup_eq_some_iff.1 h
    rw [hnodes]
    exact List.mem_append_right _ List.mem_cons_self

/-- The picture in the file at a location. -/
def picture? (s : FileStore) (l : Location) : Option Image :=
  match s.get? l with
  | some (.file (.picture image)) => some image
  | _ => none

theorem picture?_eq_some {s : FileStore} {l : Location} {image : Image} :
    s.picture? l = some image ↔ s.get? l = some (.file (.picture image)) := by
  unfold picture?
  split <;> simp_all

theorem place_of_here {s t : FileStore} (h : t.here = s.here) (path : String) :
    t.place path = s.place path := by
  simp [place, h]

/-- There is a file with this text at a location. -/
def HoldsText (s : FileStore) (l : Location) (text : String) : Prop :=
  ∃ bytes, s.get? l = some (.file (.bytes bytes)) ∧ String.fromUTF8? bytes = some text

/-- Text that can be read is in the file at the place of the path. -/
theorem readText_eq_ok {s : FileStore} {path text : String} (h : s.readText path = .ok text) :
    s.HoldsText (s.place path) text := by
  simp only [readText, bind, Except.bind, pure, Except.pure] at h
  split at h
  · cases h
  rename_i l hl
  obtain rfl := locate_eq_ok hl
  split at h
  · cases h
  · cases h
  · cases h
  · rename_i bytes hfile
    split at h
    · rename_i text' hbytes
      obtain rfl := Except.ok.inj h
      exact ⟨bytes, hfile, hbytes⟩
    · cases h

/-! ## Files that stay as they are -/

variable {s t u : FileStore} {P Q : Location → Prop}

/-- Nothing changes outside the locations `P`, except that directories are made. -/
structure Spares (P : Location → Prop) (s t : FileStore) : Prop where
  here : t.here = s.here
  spared : ∀ l, ¬P l → t.get? l = s.get? l ∨ s.get? l = none ∧ t.get? l = some .directory

namespace Spares

theorem refl (P : Location → Prop) (s : FileStore) : Spares P s s := ⟨rfl, fun _ _ => .inl rfl⟩

theorem mono (hPQ : ∀ l, P l → Q l) (h : Spares P s t) : Spares Q s t :=
  ⟨h.here, fun l hl => h.spared l fun hP => hl (hPQ l hP)⟩

theorem trans (h : Spares P s t) (h' : Spares P t u) : Spares P s u := by
  refine ⟨h'.here.trans h.here, fun l hl => ?_⟩
  rcases h.spared l hl with hst | ⟨hs, ht⟩
  · rw [← hst]
    exact h'.spared l hl
  · rcases h'.spared l hl with htu | ⟨ht', -⟩
    · exact .inr ⟨hs, htu.trans ht⟩
    · rw [ht] at ht'
      cases ht'

/-- A file outside stays what it is. -/
theorem file {l : Location} {content : FileContent} (h : Spares P s t) (hl : ¬P l)
    (hfile : s.get? l = some (.file content)) : t.get? l = some (.file content) := by
  rcases h.spared l hl with hst | ⟨hnone, -⟩
  · exact hst.trans hfile
  · rw [hfile] at hnone
    cases hnone

/-- What is a file outside was that file before. -/
theorem file_of {l : Location} {content : FileContent} (h : Spares P s t) (hl : ¬P l)
    (hfile : t.get? l = some (.file content)) : s.get? l = some (.file content) := by
  rcases h.spared l hl with hst | ⟨-, hdirectory⟩
  · exact hst.symm.trans hfile
  · rw [hfile] at hdirectory
    cases hdirectory

end Spares

/-! ## Operations -/

theorem spares_makeDirectory {path : String} (h : s.makeDirectory path = .ok t) :
    Spares P s t := by
  simp only [makeDirectory, bind, Except.bind, pure, Except.pure] at h
  split at h
  · cases h
  rename_i l hl
  split at h
  · cases h
  · rename_i hnone
    obtain rfl := Except.ok.inj h
    have hne : l ≠ [] := by
      rintro rfl
      simp [get?] at hnone
    refine ⟨rfl, fun k _ => ?_⟩
    by_cases hk : k = l
    · subst hk
      exact .inr ⟨hnone, get?_put_self s hne _⟩
    · exact .inl (get?_put_of_ne s hk _)

theorem spares_makeDirectories (fuel : Nat) (path : String) (s : FileStore) :
    Spares P s (makeDirectories fuel path s).2 := by
  fun_induction makeDirectories fuel path s with
  | case1 | case3 | case7 => exact Spares.refl _ _
  | case2 fuel path s hpath t hmake => exact spares_makeDirectory hmake
  | case4 path s hpath fault hmake hfault fuel parent hparent fault' t haround ih
  | case6 path s hpath fault hmake hfault fuel parent hparent t haround fault' hagain ih =>
    simpa only [haround] using ih
  | case5 path s hpath fault hmake hfault fuel parent hparent t haround u hagain ih =>
    rw [haround] at ih
    exact ih.trans (spares_makeDirectory hagain)

/-- A file that can be written is at the place of its path. -/
theorem write_eq_ok {path : String} {content : FileContent} (h : s.write path content = .ok t) :
    t = s.put (s.place path) (.file content) ∧ s.place path ≠ [] := by
  simp only [write, bind, Except.bind, pure, Except.pure] at h
  split at h
  · cases h
  rename_i l hl
  obtain rfl := locate_eq_ok hl
  split at h
  · cases h
  · rename_i hdirectory
    refine ⟨(Except.ok.inj h).symm, fun hroot => hdirectory ?_⟩
    simp [isDirectoryAt, get?, hroot]

theorem spares_write {path : String} {content : FileContent} (h : s.write path content = .ok t) :
    Spares (· = s.place path) s t := by
  obtain ⟨rfl, -⟩ := write_eq_ok h
  exact ⟨rfl, fun l hl => .inl (get?_put_of_ne s hl _)⟩

theorem get?_of_write {path : String} {content : FileContent} (h : s.write path content = .ok t) :
    t.get? (s.place path) = some (.file content) := by
  obtain ⟨rfl, hne⟩ := write_eq_ok h
  exact get?_put_self s hne _

/-! ## Saved pictures -/

/-- Pictures have been saved one after the other, each under its path. -/
structure Saves (pictures : List (String × Image)) (s t : FileStore) : Prop
    extends Spares (fun l => ∃ q ∈ pictures, s.place q.1 = l) s t where
  /-- What is saved is there unless a later picture was saved in its place. -/
  saved : ∀ earlier q later, pictures = earlier ++ q :: later →
    (∀ q' ∈ later, s.place q'.1 ≠ s.place q.1) →
      t.get? (s.place q.1) = some (.file (.picture q.2))

namespace Saves

variable {pictures more : List (String × Image)}

theorem nil (s : FileStore) : Saves [] s s := by
  refine ⟨Spares.refl _ s, fun earlier q later h => ?_⟩
  simp at h

theorem append (h : Saves pictures s t) (h' : Saves more t u) : Saves (pictures ++ more) s u := by
  have hplace := place_of_here h.here
  have hfirst : Spares (fun l => ∃ q ∈ pictures ++ more, s.place q.1 = l) s t :=
    h.toSpares.mono fun l ⟨q, hq, hl⟩ => ⟨q, List.mem_append_left _ hq, hl⟩
  have hsecond : Spares (fun l => ∃ q ∈ pictures ++ more, s.place q.1 = l) t u :=
    h'.toSpares.mono fun l ⟨q, hq, hl⟩ => ⟨q, List.mem_append_right _ hq, hplace _ ▸ hl⟩
  refine ⟨hfirst.trans hsecond, fun earlier q later hsplit hlater => ?_⟩
  have hsaved := h'.saved
  simp only [hplace] at hsaved
  rcases List.append_eq_append_iff.1 hsplit with ⟨inner, -, hmore⟩ | ⟨inner, hpictures, hrest⟩
  · exact hsaved inner q later hmore hlater
  · cases inner with
    | nil => exact hsaved [] q later hrest.symm hlater
    | cons q' inner =>
      obtain ⟨rfl, rfl⟩ := List.cons.inj hrest
      -- saved among the first ones, and no later picture takes its place
      have hthere := h.saved earlier q inner hpictures fun q' hq' =>
        hlater q' (List.mem_append_left _ hq')
      refine h'.toSpares.file ?_ hthere
      rintro ⟨q', hq', hl⟩
      exact hlater q' (List.mem_append_right _ hq') (hplace _ ▸ hl)

/-- Among the places of the pictures there are only pictures. -/
theorem exists_of_mem (h : Saves pictures s t) {q : String × Image} (hq : q ∈ pictures) :
    ∃ image, t.get? (s.place q.1) = some (.file (.picture image)) := by
  -- the last of the pictures in this place
  obtain ⟨later, q', earlier, hsplit, hplace, hlater⟩ :
      ∃ later q' earlier, pictures.reverse = later ++ q' :: earlier ∧ s.place q'.1 = s.place q.1 ∧
        ∀ q'' ∈ later, s.place q''.1 ≠ s.place q.1 := by
    have hfound : (pictures.reverse.find? fun q' => s.place q'.1 = s.place q.1).isSome := by
      simpa using ⟨q.1, ⟨q.2, hq⟩, rfl⟩
    obtain ⟨q', hq'⟩ := Option.isSome_iff_exists.1 hfound
    obtain ⟨hplace, later, earlier, hsplit, hlater⟩ := List.find?_eq_some_iff_append.1 hq'
    exact ⟨later, q', earlier, hsplit, by simpa using hplace, by simpa using hlater⟩
  refine ⟨q'.2, hplace ▸ h.saved earlier.reverse q' later.reverse ?_ ?_⟩
  · simpa using congrArg List.reverse hsplit
  · simpa [hplace] using hlater

/-- What is text now was text before. -/
theorem holdsText_of {l : Location} {text : String} (h : Saves pictures s t)
    (htext : t.HoldsText l text) : s.HoldsText l text := by
  obtain ⟨bytes, hfile, hbytes⟩ := htext
  refine ⟨bytes, h.toSpares.file_of ?_ hfile, hbytes⟩
  rintro ⟨q, hq, rfl⟩
  obtain ⟨image, himage⟩ := h.exists_of_mem hq
  rw [hfile] at himage
  cases himage

end Saves

end Easel.FileStore

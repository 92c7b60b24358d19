import Easel.Proofs.Script.Atomicity

/-!
# Going back to a checkpoint

A checkpoint holds the length of the canvas and not the canvas, so going back to it restores the
canvas only if what was on it then is still there. `Usage` follows a session with the moments that
can still be gone back to. These lie one above the other (`Usage.Nested`): each of them holds the
canvas of those before it, and the session holds them all. Every operation keeps them so, because
going back to a moment discards the later ones.
-/

namespace Easel

/-- What can be done to a session. -/
inductive SessionOp where
  | push (v : Value)
  | pop
  | display (r : ObjectRef) (c : Colour)
  | requestRender
  | takeRedraw
  /-- Takes a checkpoint. -/
  | checkpoint
  /-- Goes back to a checkpoint, the latest one for `0`. Those taken after it are discarded. -/
  | rollback (k : Nat)

/-- A session in use. -/
structure Usage where
  session : Session
  /-- The session at each checkpoint that was not discarded, the latest first. -/
  marked : List Session

namespace Usage

/-- Does an operation, unless it goes back to a checkpoint that there is not. -/
def perform (u : Usage) : SessionOp → Option Usage
  | .push v => some { u with session := u.session.push v }
  | .pop => some { u with session := u.session.pop }
  | .display r c => some { u with session := u.session.display r c }
  | .requestRender => some { u with session := u.session.requestRender }
  | .takeRedraw => some { u with session := u.session.takeRedraw }
  | .checkpoint => some { u with marked := u.session :: u.marked }
  | .rollback k => match u.marked.drop k with
    | [] => none
    | b :: older => some ⟨u.session.rollback b.checkpoint, b :: older⟩

/-- Does one operation after the other. -/
def performAll (u : Usage) (ops : List SessionOp) : Option Usage := ops.foldlM perform u

variable {u u' : Usage} {s t m b : Session} {marks : List Session} {op : SessionOp}
  {ops : List SessionOp}

theorem performAll_append (u : Usage) (before after : List SessionOp) :
    u.performAll (before ++ after) = (u.performAll before).bind fun v => v.performAll after :=
  List.foldlM_append

theorem performAll_cons_eq_some :
    u.performAll (op :: ops) = some u' ↔ ∃ v, u.perform op = some v ∧ v.performAll ops = some u' := by
  rw [performAll, List.foldlM_cons]
  exact Option.bind_eq_some_iff

/-- What there is to go back to is a marked moment, and those before it stay. -/
theorem perform_rollback {k : Nat} (h : u.perform (.rollback k) = some u') :
    ∃ b older, u.marked.drop k = b :: older ∧ u' = ⟨u.session.rollback b.checkpoint, b :: older⟩ := by
  simp only [perform] at h
  split at h
  case h_1 => cases h
  case h_2 b older hdrop =>
    cases h
    exact ⟨b, older, hdrop, rfl⟩

/-- What was on the canvas at a marked moment is on the canvas at every later one, and now. -/
def Nested (u : Usage) : Prop :=
  (u.session :: u.marked).Pairwise fun later earlier =>
    earlier.canvas.toList <+: later.canvas.toList

namespace Nested

theorem start (m : Session) : Nested ⟨m, [m]⟩ := List.pairwise_pair.2 (List.prefix_refl _)

theorem canvas_prefix (h : u.Nested) (hb : b ∈ u.marked) :
    b.canvas.toList <+: u.session.canvas.toList :=
  List.rel_of_pairwise_cons h hb

/-- Marks are kept by all that leaves the canvas alone or adds to it. -/
theorem extend (h : Nested ⟨s, marks⟩) (hst : s.canvas.toList <+: t.canvas.toList) :
    Nested ⟨t, marks⟩ := by
  obtain ⟨hall, hmarks⟩ := List.pairwise_cons.1 h
  exact List.pairwise_cons.2 ⟨fun b hb => (hall b hb).trans hst, hmarks⟩

/-- **Marks stay nested**, whatever is done. -/
theorem perform (h : u.Nested) (hop : u.perform op = some u') : u'.Nested := by
  cases op with
  | push _ | pop | requestRender | takeRedraw =>
    cases hop
    exact h.extend (List.prefix_refl _)
  | display r c =>
    cases hop
    refine h.extend ?_
    simp only [Session.display, Array.toList_push]
    exact List.prefix_append _ _
  | checkpoint =>
    cases hop
    refine List.pairwise_cons.2 ⟨fun b hb => ?_, h⟩
    rcases List.mem_cons.1 hb with rfl | hb
    · exact List.prefix_refl _
    · exact h.canvas_prefix hb
  | rollback k =>
    obtain ⟨b, older, hdrop, rfl⟩ := perform_rollback hop
    have hb : b ∈ u.marked := List.mem_of_mem_drop (hdrop ▸ List.mem_cons_self)
    have hkept : (b :: older).Pairwise fun later earlier =>
        earlier.canvas.toList <+: later.canvas.toList := by
      rw [← hdrop]
      exact (List.pairwise_cons.1 h).2.drop
    have hcanvas := Session.Above.canvas_rollback (h.canvas_prefix hb)
    -- The session has the canvas of `b` again, which the marks up to `b` lie below.
    refine List.pairwise_cons.2 ⟨fun d hd => ?_, hkept⟩
    rw [hcanvas]
    rcases List.mem_cons.1 hd with rfl | hd
    · exact List.prefix_refl _
    · exact List.rel_of_pairwise_cons hkept hd

theorem performAll (h : u.Nested) (hops : u.performAll ops = some u') : u'.Nested := by
  induction ops generalizing u with
  | nil =>
    cases hops
    exact h
  | cons op ops ih =>
    obtain ⟨v, hop, hrest⟩ := performAll_cons_eq_some.1 hops
    exact ih (h.perform hop) hrest

/-- Going back to a marked moment restores it up to the stack, which is left as it is. -/
theorem rollback_eq (h : u.Nested) (hb : b ∈ u.marked) :
    u.session.rollback b.checkpoint = { b with stack := u.session.stack } := by
  have hcanvas := Session.Above.canvas_rollback (h.canvas_prefix hb)
  rw [← hcanvas]
  rfl

end Nested

/-! ## The first mark -/

/-- The first mark is never discarded: there is none before it to go back to. -/
theorem first_perform (h : [m] <:+ u.marked) (hop : u.perform op = some u') : [m] <:+ u'.marked := by
  cases op with
  | checkpoint =>
    cases hop
    exact h.trans (List.suffix_cons _ _)
  | rollback k =>
    obtain ⟨b, older, hdrop, rfl⟩ := perform_rollback hop
    have hkept : b :: older <:+ u.marked := hdrop ▸ List.drop_suffix k u.marked
    exact List.suffix_of_suffix_length_le h hkept (Nat.succ_le_succ (Nat.zero_le _))
  | _ =>
    cases hop
    exact h

theorem first_performAll (h : [m] <:+ u.marked) (hops : u.performAll ops = some u') :
    [m] <:+ u'.marked := by
  induction ops generalizing u with
  | nil =>
    cases hops
    exact h
  | cons op ops ih =>
    obtain ⟨v, hop, hrest⟩ := performAll_cons_eq_some.1 hops
    exact ih (first_perform h hop) hrest

/-- What holds of a session since a checkpoint was taken of it at `m`. -/
theorem since (h : performAll ⟨m, [m]⟩ ops = some u) : u.Nested ∧ m ∈ u.marked :=
  ⟨(Nested.start m).performAll h,
    (first_performAll (List.suffix_refl [m]) h).subset List.mem_cons_self⟩

/-- **Going back to a checkpoint restores the session exactly.** Whatever is done after a checkpoint
was taken at `m`, going back to it and to later checkpoints included, the canvas of that moment
stays the beginning of the canvas throughout, and going back to it in the end gives the session of
that moment but for the stack, which is not touched. The same holds of every checkpoint that was
taken since and not discarded. -/
theorem rollback_restores (m : Session) (ops : List SessionOp) (u : Usage)
    (h : performAll ⟨m, [m]⟩ ops = some u) :
    (∀ n, ∃ v, performAll ⟨m, [m]⟩ (ops.take n) = some v ∧
      m.canvas.toList <+: v.session.canvas.toList) ∧
    u.session.rollback m.checkpoint = { m with stack := u.session.stack } ∧
    ∀ b ∈ u.marked, b.canvas.toList <+: u.session.canvas.toList ∧
      u.session.rollback b.checkpoint = { b with stack := u.session.stack } := by
  obtain ⟨hnested, hmem⟩ := since h
  refine ⟨fun n => ?_, hnested.rollback_eq hmem, fun b hb =>
    ⟨hnested.canvas_prefix hb, hnested.rollback_eq hb⟩⟩
  rw [← List.take_append_drop n ops, performAll_append] at h
  obtain ⟨v, hv, -⟩ := Option.bind_eq_some_iff.1 h
  obtain ⟨hv', hmem'⟩ := since hv
  exact ⟨v, hv, hv'.canvas_prefix hmem'⟩

/-- A checkpoint inside another one, a redraw in between, and a way back to each of them. -/
theorem rollback_restores_twice :
    let m : Session :=
      { stack := [.number 1], canvas := #[⟨⟨7⟩, .black⟩], redrawPending := true, renderRequests := 3 }
    let ops : List SessionOp := [.takeRedraw, .display ⟨0⟩ .black, .checkpoint,
      .display ⟨1⟩ .black, .requestRender, .rollback 0, .display ⟨2⟩ .black, .rollback 1, .pop,
      .push (.text "kept"), .requestRender, .display ⟨3⟩ .black]
    ∃ u, performAll ⟨m, [m]⟩ ops = some u ∧ u.session.canvas = #[⟨⟨7⟩, .black⟩, ⟨⟨3⟩, .black⟩] ∧
      u.session.rollback m.checkpoint = { m with stack := [.text "kept"] } := by
  intro m ops
  obtain ⟨u, hu, hcanvas, hstack⟩ : ∃ u, performAll ⟨m, [m]⟩ ops = some u ∧
      u.session.canvas = #[⟨⟨7⟩, .black⟩, ⟨⟨3⟩, .black⟩] ∧ u.session.stack = [.text "kept"] :=
    ⟨_, rfl, rfl, rfl⟩
  refine ⟨u, hu, hcanvas, ?_⟩
  rw [← hstack]
  exact (rollback_restores m ops u hu).2.1

/-- A checkpoint that was discarded says nothing any more: its length is that of another canvas. -/
example :
    let m : Session := {}
    let b := m.display ⟨0⟩ .black
    ((b.rollback m.checkpoint).display ⟨1⟩ .black).rollback b.checkpoint =
      { b with canvas := #[⟨⟨1⟩, .black⟩] } := rfl

end Usage

end Easel

import FileExchange.Proofs.Interleaving.Whole

/-!
# An upload on its own

Receiving an upload, once its directory is there, is a run of the steps of a single upload. What every
interleaving keeps, receiving keeps.
-/

set_option autoImplicit false

namespace FileExchange.Interleaving

open Upload

variable {x : Exchange} {t₁ : Tree} {directory : Path} {name : String} {u : UploadTarget} {size : Nat}
  {w : World} {part : World.PartFile}

/-- The upload that is under way is the one that the exchange brings. -/
def jobOf (x : Exchange) (u : UploadTarget) : Unit → Job :=
  fun _ => ⟨u.name, x.connection.pending.bytes⟩

/-- The temporary file holds all that arrives before it is renamed or left behind. -/
theorem run_filled (hu : u.Proper) (hsize : 1 ≤ size)
    (hpart : { x.toWorld with tree := t₁ }.createPart u.directory u.name World.tokenTries =
      (.ok part, w)) :
    ∃ token s p, run u.directory (jobOf x u) (initial t₁)
        [.create () token, .append () x.connection.pending.bytes] = some s ∧
      s.stage () = .filling p ∧ p.written = x.connection.pending.bytes ∧
      part.path = u.directory.child p.name ∧ s.tree = (filled x w part size).tree := by
  obtain ⟨token, hpath, hcreate⟩ := World.createPart_eq_ok hpart
  rw [hpath] at hcreate
  obtain ⟨d, _, _, _, hid, htree⟩ :=
    Tree.createFile_child hu.absolute (World.descends_partName u.name token) hcreate
  have hempty : w.tree.content part.id = [] := by
    rw [hid, htree]
    exact Tree.content_newFile_self t₁ _
  let p : Part := ⟨World.partName u.name token, part.id, []⟩
  let s₁ : State Unit := (initial t₁).advance () (.filling p) w.tree
  let s₂ : State Unit := s₁.advance () (.filling { p with written := x.connection.pending.bytes })
    (w.tree.setContent part.id x.connection.pending.bytes)
  have hfirst : (initial t₁).step u.directory (jobOf x u) (.create () token) = some s₁ := by
    simp only [State.step, State.create, initial, jobOf, hcreate]
    rfl
  have hsecond : s₁.step u.directory (jobOf x u) (.append () x.connection.pending.bytes) = some s₂ := by
    have hbytes : s₁.tree.content p.id ++ x.connection.pending.bytes = x.connection.pending.bytes := by
      rw [show s₁.tree.content p.id = [] from hempty, List.nil_append]
    have hfits : p.written ++ x.connection.pending.bytes <+: (jobOf x u ()).body := List.prefix_refl _
    have hstage : s₁.stage () = .filling p := rfl
    simp only [State.step, State.append, hstage, if_pos hfits, hbytes]
    rfl
  refine ⟨token, s₂, _, ?_, rfl, rfl, hpath, ?_⟩
  · rw [run, hfirst, Option.bind_some, run, hsecond, Option.bind_some, run]
  · rw [filled, (Connection.takeBody_eq hsize).1]
    rfl

/-- Receiving ends with the rename if all goes well, and otherwise with giving up. -/
theorem run_receive (hu : u.Proper) (hsize : 1 ≤ size)
    (htarget : target x.tree directory name = .ok u)
    (hensure : x.tree.ensureDirectories u.directory = (.ok (), t₁))
    (hpart : { x.toWorld with tree := t₁ }.createPart u.directory u.name World.tokenTries =
      (.ok part, w)) :
    ∃ token e s, run u.directory (jobOf x u) (initial t₁)
        [.create () token, .append () x.connection.pending.bytes, e] = some s ∧
      s.tree = (receive directory size name x).2.tree ∧
      e = if (receive directory size name x).1.toOption.isSome then .publish () else .abort () := by
  obtain ⟨token, s, p, hrun, hstage, hwritten, hpath, htree⟩ := run_filled hu hsize hpart
  have hthen : ∀ e, run u.directory (jobOf x u) (initial t₁)
      [.create () token, .append () x.connection.pending.bytes, e] =
        s.step u.directory (jobOf x u) e := by
    intro e
    have happend := run_append u.directory (jobOf x u) (initial t₁)
      [.create () token, .append () x.connection.pending.bytes] [e]
    rw [hrun, Option.bind_some] at happend
    exact happend.trans (Option.bind_fun_some _)
  have habort : s.step u.directory (jobOf x u) (.abort ()) = some (s.advance () (.aborted p) s.tree) := by
    simp only [State.step, State.abort, hstage]
  cases hfault : (x.connection.takeBody size).1.fault with
  | some fault =>
    rw [receive_of_fault htarget hensure hpart hfault]
    exact ⟨token, _, _, (hthen _).trans habort, htree, rfl⟩
  | none =>
    cases hrename : (filled x w part size).tree.rename part.path u.path with
    | error e =>
      rw [receive_of_rename_error htarget hensure hpart hfault hrename]
      exact ⟨token, _, _, (hthen _).trans habort, htree, rfl⟩
    | ok t₂ =>
      obtain ⟨n, y, hreceive, htree', _⟩ := receive_of_renamed htarget hensure hpart hfault hrename
      rw [hreceive]
      rw [← htree, hpath, hu.path_eq] at hrename
      have hpublish : s.step u.directory (jobOf x u) (.publish ()) =
          some (s.advance () (.published p) t₂) := by
        have hbody : p.written = (jobOf x u ()).body := hwritten
        have hname : (jobOf x u ()).name = u.name := rfl
        simp only [State.step, State.publish, hstage, if_pos hbody, hname, hrename]
      exact ⟨token, _, _, (hthen _).trans hpublish, htree'.symm, rfl⟩

/-- Receiving leaves a tree that the steps of the upload reach, and so what every interleaving keeps: no file in it is
mixed, and if the upload ends with the rename its name has all that was received. -/
theorem unmixed_of_receive {d : Location} (hu : u.Proper) (hsize : 1 ≤ size)
    (hdirectory : u.directory = d.path) (htarget : target x.tree directory name = .ok u)
    (hready : x.tree.Ensured t₁ d.path d) (hensure : x.tree.ensureDirectories u.directory = (.ok (), t₁))
    (hpart : { x.toWorld with tree := t₁ }.createPart u.directory u.name World.tokenTries = (.ok part, w)) :
    ∃ token e s, s.tree = (receive directory size name x).2.tree ∧
      e = (if (receive directory size name x).1.toOption.isSome then .publish () else .abort ()) ∧
      Unmixed d (jobOf x u) t₁ [.create () token, .append () x.connection.pending.bytes, e] s ∧
      Attributed d (jobOf x u) [.create () token, .append () x.connection.pending.bytes, e] s := by
  obtain ⟨token, e, s, hrun, htree, he⟩ := run_receive hu hsize htarget hensure hpart
  rw [hdirectory] at hrun
  have hnames : ∀ i, Path.Descends (jobOf x u i).name := fun _ => hu.name.descends
  have horderly := orderly_of_run hready.sound hready.leadsTo hnames hrun
  obtain ⟨hlayered, hsettled⟩ := settled_of_run hready.sound hready.leadsTo hnames hrun
  have hown : ∀ i j token', (jobOf x u j).name ≠ World.partName (jobOf x u i).name token' :=
    fun _ _ token' => World.partName_ne u.name token'
  exact ⟨token, e, s, htree, he, hsettled.unmixed hlayered hready.sound horderly,
    attributed_of_names hready.sound hready.leadsTo hnames hrun hown⟩

end FileExchange.Interleaving

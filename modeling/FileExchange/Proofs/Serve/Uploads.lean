import FileExchange.Proofs.Serve.Sites
import FileExchange.Proofs.Serve.Steps
import FileExchange.Proofs.Stream
import FileExchange.Proofs.Tree.Files

/-!
# Uploads

Which names are accepted, and how receiving runs: one equation for each point at which it can end.
-/

set_option autoImplicit false

namespace FileExchange

open Serving

/-! ## Names -/

namespace World

theorem toList_partName (name token : String) :
    (partName name token).toList = name.toList ++ ('.' :: token.toList ++ partSuffix.toList) := by
  simp [partName, String.toList_append]

theorem length_partName (name token : String) :
    (partName name token).length = name.length + token.length + 6 := by
  have hdot : ".".length = 1 := rfl
  have hsuffix : partSuffix.length = 5 := by decide
  rw [partName, String.length_append, String.length_append, String.length_append, hdot, hsuffix]
  omega

theorem partName_ne (name token : String) : name ≠ partName name token := by
  intro h
  have hlen := congrArg String.length h
  rw [length_partName] at hlen
  omega

theorem descends_partName (name token : String) : Path.Descends (partName name token) := by
  refine ⟨fun h => ?_, fun h => ?_⟩
  · have hlen := congrArg String.length h
    rw [length_partName, show ".".length = 1 from rfl] at hlen
    omega
  · have hlen := congrArg String.length h
    rw [length_partName, show "..".length = 2 from rfl] at hlen
    omega

theorem nameable_of_partName {p : Path} {name token : String} (hp : p.isAbsolute = true)
    (hname : Path.Descends name) (h : Tree.Nameable p (partName name token)) :
    Tree.Nameable p name := by
  refine h.shorter hp hname (fun c hc => ?_) ?_
  · rw [toList_partName]
    exact List.mem_append_left _ hc
  · rw [partName, String.utf8ByteSize_append, String.utf8ByteSize_append,
      String.utf8ByteSize_append]
    omega

end World

/-- A plain name, and a directory that is written with plain names. -/
structure UploadTarget.Proper (u : UploadTarget) : Prop where
  absolute : u.directory.isAbsolute = true
  above : ∀ n ∈ u.directory.names, Path.IsPlain n
  name : Path.IsPlain u.name

theorem UploadTarget.Proper.path_eq {u : UploadTarget} (h : u.Proper) :
    u.path = u.directory.child u.name := by
  rw [path, Path.ofString_of_isName h.name.1]
  rfl

namespace Upload

variable {t : Tree} {directory : Path} {name : String} {u : UploadTarget}

theorem isPlain_of_refusalOf (h : refusalOf name = none) : Path.IsPlain name := by
  unfold refusalOf at h
  split at h
  · cases h
  · rename_i hdots
    split at h
    · cases h
    · rename_i hslash
      simp only [Bool.or_eq_true, beq_iff_eq, not_or] at hdots
      refine ⟨⟨hdots.1.1, hdots.1.2, fun hmem => hslash ?_⟩, hdots.2⟩
      exact List.any_eq_true.mpr ⟨'/', hmem, rfl⟩

theorem notMem_of_refusalOf (h : refusalOf name = none) {c : Char} (hc : isControl c = true) :
    c ∉ name.toList := by
  unfold refusalOf at h
  split at h
  · cases h
  · split at h
    · cases h
    · split at h
      · cases h
      · rename_i hcontrol
        exact fun hmem => hcontrol (List.any_eq_true.mpr ⟨c, hmem, hc⟩)

theorem target_eq_ok (h : target t directory name = .ok u) :
    refusalOf name = none ∧ u.name = name ∧ t.resolve directory = .ok u.directory := by
  unfold target at h
  split at h
  · cases h
  · rename_i haccepted
    obtain ⟨real, hreal, h⟩ := except_bind_eq_ok h
    obtain ⟨child, _, h⟩ := except_bind_eq_ok h
    split at h
    · cases h
    · cases h
      exact ⟨haccepted, rfl, hreal⟩

theorem proper_of_target (hdirectory : directory.isAbsolute = true)
    (hplain : ∀ n ∈ directory.names, Path.IsPlain n) (h : target t directory name = .ok u) :
    u.Proper := by
  obtain ⟨haccepted, hname, hresolve⟩ := target_eq_ok h
  refine ⟨?_, Tree.resolve_isPlain ?_ (fun n hn => (hplain n hn).1.2.2) hresolve, ?_⟩
  · exact Tree.isAbsolute_of_resolve hresolve
  · rw [Tree.start_of_isAbsolute hdirectory]
    simp
  · rw [hname]
    exact isPlain_of_refusalOf haccepted

/-! ## Receiving -/

/-- The exchange once all that arrives has been kept in the temporary file. -/
def filled (x : Exchange) (w : World) (part : World.PartFile) (size : Nat) : Exchange :=
  { x with
    toWorld := { w with tree := w.tree.setContent part.id (x.connection.takeBody size).1.bytes },
    connection := (x.connection.takeBody size).2 }

section Runs

variable {x : Exchange} {t₁ t₂ : Tree} {w : World} {part : World.PartFile} {e : Failure} {size : Nat}

theorem receive_of_refused (h : target x.tree directory name = .error e) :
    receive directory size name x = (.error e, x) := by
  exact run_ask_bind_error h

theorem run_fill (h : (x.connection.takeBody size).1.fault = none) :
    fill part size { x with toWorld := w } =
      (.ok (x.connection.takeBody size).1.bytes.length, filled x w part size) := by
  simp only [fill, filled, h]

variable (htarget : target x.tree directory name = .ok u)

include htarget

theorem receive_of_no_directory (h : x.tree.ensureDirectories u.directory = (.error e, t₁)) :
    receive directory size name x = (.error e, { x with tree := t₁ }) := by
  unfold receive
  refine (run_ask_bind_ok htarget).trans ?_
  refine run_bind_error ?_
  simp only [makeDirectories, h]

variable (hready : x.tree.ensureDirectories u.directory = (.ok (), t₁))

include hready

theorem receive_of_no_part
    (h : { x.toWorld with tree := t₁ }.createPart u.directory u.name World.tokenTries =
      (.error e, w)) :
    receive directory size name x = (.error e, { x with toWorld := w }) := by
  unfold receive
  refine (run_ask_bind_ok htarget).trans ?_
  rw [run_bind_ok (y := { x with tree := t₁ }) (a := ()) (by simp only [makeDirectories, hready])]
  refine run_bind_error ?_
  simp only [createPart, h]

variable (hpart : { x.toWorld with tree := t₁ }.createPart u.directory u.name World.tokenTries =
  (.ok part, w))

include hpart

theorem receive_of_part :
    receive directory size name x = (fill part size >>= fun received => do
      publish part u
      report .info .upload ("File " ++ u.name ++ " uploaded successfully (" ++ toString received ++
        " bytes)")
      return received) { x with toWorld := w } := by
  unfold receive
  refine (run_ask_bind_ok htarget).trans ?_
  rw [run_bind_ok (y := { x with tree := t₁ }) (a := ()) (by simp only [makeDirectories, hready])]
  refine run_bind_ok ?_
  simp only [createPart, hpart]

theorem receive_of_fault {fault : Fault} (h : (x.connection.takeBody size).1.fault = some fault) :
    receive directory size name x = (.error (.system fault), filled x w part size) := by
  rw [receive_of_part htarget hready hpart]
  refine run_bind_error ?_
  simp only [fill, filled, h]

variable (hend : (x.connection.takeBody size).1.fault = none)

include hend

theorem receive_of_rename_error
    (h : (filled x w part size).tree.rename part.path u.path = .error e) :
    receive directory size name x = (.error e, filled x w part size) := by
  rw [receive_of_part htarget hready hpart, run_bind_ok (run_fill hend)]
  refine run_bind_error ?_
  simp only [publish, h]

theorem receive_of_renamed (h : (filled x w part size).tree.rename part.path u.path = .ok t₂) :
    ∃ n y, receive directory size name x = (.ok n, y) ∧ y.tree = t₂ ∧
      y.connection = (filled x w part size).connection := by
  have hpublish : publish part u (filled x w part size) =
      (.ok (), { filled x w part size with tree := t₂ }) := by
    simp only [publish, h]
  rw [receive_of_part htarget hready hpart, run_bind_ok (run_fill hend),
    run_bind_ok hpublish, run_bind_ok (run_report _ _ _ _)]
  exact ⟨_, _, rfl, rfl, rfl⟩

end Runs

end Upload

/-! ## The exchange afterwards -/

namespace Site

variable {s : Site} {x : Exchange}

theorem answerUpload_frame (s : Site) (name : String) (x : Exchange) :
    (s.answerUpload name x).2.tree =
        (Upload.receive s.uploads s.files.chunkSize name x).2.tree ∧
      (s.answerUpload name x).2.connection =
        (Upload.receive s.uploads s.files.chunkSize name x).2.connection := by
  cases hreceive : Upload.receive s.uploads s.files.chunkSize name x with
  | mk result y =>
    have hattempt : attempt (Upload.receive s.uploads s.files.chunkSize name) x = (.ok result, y) := by
      rw [run_attempt, hreceive]
    unfold answerUpload
    rw [run_bind_ok hattempt]
    cases result with
    | ok n => exact ⟨rfl, rfl⟩
    | error e => cases e <;> exact ⟨rfl, rfl⟩

theorem dispatch_frame (s : Site) (x : Exchange) :
    (s.dispatch x).2.tree = (s.answer x).2.tree ∧
      (s.dispatch x).2.connection = (s.answer x).2.connection := by
  cases hanswer : s.answer x with
  | mk result z =>
    cases result with
    | ok a =>
      obtain ⟨y, hdispatch, hconnection, htree⟩ := dispatch_of_answer_ok hanswer
      rw [hdispatch]
      exact ⟨htree, hconnection⟩
    | error e =>
      obtain ⟨y, hdispatch, hconnection, htree⟩ := dispatch_of_answer_error hanswer
      rw [hdispatch]
      exact ⟨htree, hconnection⟩

/-- An upload changes what receiving it changes. -/
theorem dispatch_of_upload {r : Request} (hrequest : x.request? = some r)
    (hupload : r.method = .upload) :
    (s.dispatch x).2.tree =
        (Upload.receive s.uploads s.files.chunkSize r.target x.begun).2.tree ∧
      (s.dispatch x).2.connection =
        (Upload.receive s.uploads s.files.chunkSize r.target x.begun).2.connection := by
  obtain ⟨htree, hconnection⟩ := dispatch_frame s x
  obtain ⟨htree', hconnection'⟩ := answerUpload_frame s r.target x.begun
  rw [htree, hconnection, answer_upload hrequest hupload, ← htree', ← hconnection', run_bind]
  split
  · rename_i outcome y houtcome
    rw [houtcome]
    exact ⟨rfl, rfl⟩
  · rename_i e y houtcome
    rw [houtcome]
    exact ⟨rfl, rfl⟩

end Site

end FileExchange

import FileExchange.Proofs.Serve.Sending

/-!
# Downloads

A download announces a size and then sends what its source gives, whatever that is: an open file that others
change meanwhile, or any other source that gives no more than it is asked for. The body is never longer than
announced, and a shorter one is reported.
-/

set_option autoImplicit false

namespace FileExchange.FileService

open Serving Exchange

variable {x : Exchange} {f : FileService} {p : Path} {id : FileId}

/-! ## Any source -/

/-- Sends a download of an announced size from any source. -/
def sendDownload {ρ : Type} (f : FileService) (read : Tree → ρ → Nat → Bytes × ρ) (r : ρ) (p : Path)
    (type : String) (size : Nat) : Serving Nat := do
  let now ← inspect (·.clock.now)
  sendHead (Response.attachmentHead now type size p.name f.serverName)
  let written ← sendPieces read f.chunkSize size r 0
  reportShrunk p.name size written
  return written

theorem run_openFile (h : x.tree.openFile p = .ok id) : openFile p x = (.ok id, x) := by
  rw [openFile, run_ask, h]

/-- The source of an attachment is the open file, of which the size is taken before the head is sent. -/
theorem sendAttachment_eq (type : String) (h : x.tree.openFile p = .ok id) :
    f.sendAttachment p type x =
      f.sendDownload (fun t r n => r.read t n) ({ file := id } : Reader) p type
        (x.tree.content id).length x := by
  rw [sendAttachment, run_bind_ok (run_openFile h), run_bind_ok (run_inspect _ _), sendDownload]

/-- The report of a body that is shorter than announced. -/
def shrunkRecord (connection name : String) (size sent : Nat) : Record :=
  ⟨.error, .files, "[" ++ connection ++ "] " ++ (name ++ " shrank while sending: announced " ++
    toString size ++ " bytes, sent " ++ toString sent)⟩

theorem run_reportShrunk (name : String) (size written : Nat) (x : Exchange) :
    ∃ journal, reportShrunk name size written x =
        (.ok (), { x with toWorld := { x.toWorld with journal } }) ∧
      journal = if written = size then x.journal
        else x.journal.add (shrunkRecord x.connection.id name size written) := by
  by_cases h : written = size
  · refine ⟨x.journal, ?_, (if_pos h).symm⟩
    rw [reportShrunk, if_neg (by simpa using h), run_pure]
  · refine ⟨_, ?_, (if_neg h).symm⟩
    rw [reportShrunk, if_pos (by simpa using h), run_report]
    rfl

/-- A step sends a download: behind the head that announces its size there are some pieces, either exactly as
many bytes as announced or fewer. Fewer are reported. The number of bytes is the result. -/
def Downloads (f : FileService) (x : Exchange) (p : Path) (type : String) (size : Nat)
    (step : Serving Nat) (pieces : List Bytes) : Prop :=
  ∃ y, step x = (.ok pieces.flatten.length, y) ∧
    Delivered x y ((Response.attachmentHead x.clock.now type size p.name f.serverName).head ++
      pieces.flatten) ∧
    (pieces.flatten.length = size ∧ y.journal = x.journal ∨
      pieces.flatten.length < size ∧ y.journal =
        x.journal.add (shrunkRecord x.connection.id p.name size pieces.flatten.length))

theorem Downloads.length_eq {type : String} {size count : Nat} {step : Serving Nat} {pieces : List Bytes}
    (h : f.Downloads x p type size step pieces) (hcount : (step x).1 = .ok count) :
    pieces.flatten.length = count := by
  obtain ⟨y, hrun, _⟩ := h
  rw [hrun] at hcount
  exact Except.ok.inj hcount

section

variable {ρ : Type} {read : Tree → ρ → Nat → Bytes × ρ}

theorem downloads_of_sendDownload (hx : x.Obliging) (hread : ∀ t r n, (read t r n).1.length ≤ n)
    (r : ρ) (p : Path) (type : String) (size : Nat) :
    ∃ pieces, Gives read f.chunkSize (fun k => x.treeAfter (k + 1)) size r pieces ∧
      f.Downloads x p type size (f.sendDownload read r p type size) pieces := by
  obtain ⟨x₁, hhead, hfirst⟩ :=
    run_send hx (Response.attachmentHead x.clock.now type size p.name f.serverName).head
  obtain ⟨htree, hjournal, hid⟩ := frame_of_send hx hhead
  obtain ⟨x₂, pieces, hpieces, hgives, hsecond, hjournal', hid'⟩ :=
    run_sendPieces read f.chunkSize hfirst.obliging size r 0
  rw [Nat.zero_add] at hpieces
  rw [funext htree] at hgives
  obtain ⟨journal, hreport, hrecords⟩ := run_reportShrunk p.name size pieces.flatten.length x₂
  have hdelivered := hfirst.trans hsecond
  have hlen := hgives.length_le hread
  refine ⟨pieces, hgives, { x₂ with toWorld := { x₂.toWorld with journal } }, ?_,
    ⟨hdelivered.obliging, hdelivered.wire, hdelivered.clock, hdelivered.undisturbed⟩, ?_⟩
  · rw [sendDownload, run_bind_ok (run_inspect _ _), sendHead, run_bind_ok hhead, run_bind_ok hpieces,
      run_bind_ok hreport, run_pure]
  · rw [hjournal', hjournal, hid', hid] at hrecords
    by_cases hall : pieces.flatten.length = size
    · exact Or.inl ⟨hall, hrecords.trans (if_pos hall)⟩
    · exact Or.inr ⟨by omega, hrecords.trans (if_neg hall)⟩

end

/-! ## Attachments -/

theorem length_read_le (t : Tree) (r : Reader) (n : Nat) : (r.read t n).1.length ≤ n := by
  rw [(Reader.read_takes n).1, List.length_take]
  exact Nat.min_le_left _ _

/-- The body of an attachment is what its file gives meanwhile, and all of it where nobody changes it. -/
theorem downloads_of_sendAttachment (type : String) (hx : x.Obliging) (h : x.tree.openFile p = .ok id) :
    ∃ pieces, Gives (fun t r n => r.read t n) f.chunkSize (fun k => x.treeAfter (k + 1))
        (x.tree.content id).length ({ file := id } : Reader) pieces ∧
      f.Downloads x p type (x.tree.content id).length (f.sendAttachment p type) pieces ∧
      (x.Quiet → 1 ≤ f.chunkSize → pieces.flatten = x.tree.content id) := by
  obtain ⟨pieces, hgives, hdownloads⟩ := f.downloads_of_sendDownload hx length_read_le
    ({ file := id } : Reader) p type (x.tree.content id).length
  refine ⟨pieces, hgives, ?_, fun hquiet hchunk => ?_⟩
  · rw [Downloads, sendAttachment_eq type h]
    exact hdownloads
  · rw [hgives.flatten_eq hchunk fun k => treeAfter_of_quiet hquiet (k + 1)]
    exact List.take_length

/-- Every download ends with the pieces that its source gives, never more bytes than announced, and reports it if
there are fewer. An attachment is such a download of its open file, which may change under it. -/
theorem downloads_what_is_given (hx : x.Obliging) (p : Path) (type : String) :
    (∀ {ρ : Type} (read : Tree → ρ → Nat → Bytes × ρ), (∀ t r n, (read t r n).1.length ≤ n) →
      ∀ (r : ρ) (size : Nat), ∃ pieces,
        Gives read f.chunkSize (fun k => x.treeAfter (k + 1)) size r pieces ∧
          f.Downloads x p type size (f.sendDownload read r p type size) pieces) ∧
      ∀ id, x.tree.openFile p = .ok id → ∃ pieces,
        Gives (fun t r n => r.read t n) f.chunkSize (fun k => x.treeAfter (k + 1))
            (x.tree.content id).length ({ file := id } : Reader) pieces ∧
          f.Downloads x p type (x.tree.content id).length (f.sendAttachment p type) pieces ∧
          (x.Quiet → 1 ≤ f.chunkSize → pieces.flatten = x.tree.content id) :=
  ⟨fun _ hread r size => downloads_of_sendDownload hx hread r p type size,
    fun _ h => downloads_of_sendAttachment type hx h⟩

/-- A file of eleven bytes that becomes a file of five while its head is sent. -/
def shrinking : Exchange :=
  let x := Exchange.ofLine { nodes := [(["a"], .file 0)], contents := #[Utf8.encode "hello world"] } ""
  { x with connection := { x.connection with peer := { x.connection.peer with
      meddling := [⟨1, [.file ⟨.root, ["a"]⟩ (Utf8.encode "hello")]⟩] } } }

/-- The same exchange sends three bytes of a source that gives them one by one and could give more. -/
theorem downloads_shrinking :
    shrinking.Obliging ∧ shrinking.tree.openFile ⟨.root, ["a"]⟩ = .ok 0 ∧
      (∀ (_ : Tree) (byte size : Nat), ([UInt8.ofNat byte].take size).length ≤ size) ∧
      (∃ pieces, ({ chunkSize := 4 } : FileService).Downloads shrinking ⟨.root, ["a"]⟩ "" 3
        (({ chunkSize := 4 } : FileService).sendDownload
          (fun _ byte size => ([UInt8.ofNat byte].take size, byte + 1)) 7 ⟨.root, ["a"]⟩ "" 3) pieces ∧
        pieces.flatten.length = 3) ∧
      ∃ pieces, ({ chunkSize := 4 } : FileService).Downloads shrinking ⟨.root, ["a"]⟩ "" 11
        (({ chunkSize := 4 } : FileService).sendAttachment ⟨.root, ["a"]⟩ "") pieces ∧
        pieces.flatten.length = 5 := by
  have hx : shrinking.Obliging := ⟨rfl, fun _ _ => rfl⟩
  have hopen : shrinking.tree.openFile ⟨.root, ["a"]⟩ = .ok 0 := by decide +kernel
  have hread : ∀ (_ : Tree) (byte size : Nat), ([UInt8.ofNat byte].take size).length ≤ size := by
    intro _ byte size
    rw [List.length_take]
    exact Nat.min_le_left _ _
  obtain ⟨hsource, hfile⟩ := downloads_what_is_given (f := { chunkSize := 4 }) hx ⟨.root, ["a"]⟩ ""
  obtain ⟨pieces, _, hpieces⟩ :=
    hsource (fun _ byte size => ([UInt8.ofNat byte].take size, byte + 1)) hread 7 3
  obtain ⟨pieces', _, hpieces', _⟩ := hfile 0 hopen
  exact ⟨hx, hopen, hread, ⟨pieces, hpieces, hpieces.length_eq (by decide +kernel)⟩, pieces', hpieces',
    hpieces'.length_eq (by decide +kernel)⟩

end FileExchange.FileService

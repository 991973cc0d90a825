import FileExchange.Proofs.Serve.Uploads

/-!
# Interleaved uploads

Any number of uploads into one directory, one step of one of them at a time: a temporary file is created,
the next bytes of the stream are written to the open file, the file is renamed by its path, or the upload
is given up. The names of all of them, final and temporary, are names in the same directory.
-/

set_option autoImplicit false

namespace FileExchange.Interleaving

/-! ## Steps -/

structure Job where
  name : String
  body : Bytes
  deriving Repr, DecidableEq

/-- A temporary file: the name it was created under, and what has been written to it. -/
structure Part where
  name : String
  id : FileId
  written : Bytes
  deriving Repr, DecidableEq

inductive Stage where
  | waiting
  | filling (part : Part)
  | published (part : Part)
  | aborted (part : Part)
  deriving Repr, DecidableEq

def Stage.part? : Stage → Option Part
  | .waiting => none
  | .filling p => some p
  | .published p => some p
  | .aborted p => some p

inductive Event (ι : Type) where
  | create (i : ι) (token : String)
  | append (i : ι) (bytes : Bytes)
  | publish (i : ι)
  | abort (i : ι)
  deriving Repr, DecidableEq

structure State (ι : Type) where
  tree : Tree
  stage : ι → Stage

variable {ι : Type}

def initial (t : Tree) : State ι :=
  ⟨t, fun _ => .waiting⟩

variable [DecidableEq ι]

namespace State

def advance (s : State ι) (i : ι) (stage : Stage) (tree : Tree) : State ι :=
  ⟨tree, fun j => if j = i then stage else s.stage j⟩

variable (directory : Path) (jobs : ι → Job) (s : State ι)

def create (i : ι) (token : String) : Option (State ι) :=
  match s.stage i with
  | .waiting =>
    let name := World.partName (jobs i).name token
    match s.tree.createFile (directory.child name) with
    | .ok (id, tree) => some (s.advance i (.filling ⟨name, id, []⟩) tree)
    | .error _ => none
  | _ => none

/-- The bytes go to the file that is open, whatever its name leads to by now. -/
def append (i : ι) (bytes : Bytes) : Option (State ι) :=
  match s.stage i with
  | .filling p =>
    if p.written ++ bytes <+: (jobs i).body then
      some (s.advance i (.filling { p with written := p.written ++ bytes })
        (s.tree.setContent p.id (s.tree.content p.id ++ bytes)))
    else none
  | _ => none

/-- The rename goes by path, once the stream has ended. -/
def publish (i : ι) : Option (State ι) :=
  match s.stage i with
  | .filling p =>
    if p.written = (jobs i).body then
      match s.tree.rename (directory.child p.name) (directory.child (jobs i).name) with
      | .ok tree => some (s.advance i (.published p) tree)
      | .error _ => none
    else none
  | _ => none

def abort (i : ι) : Option (State ι) :=
  match s.stage i with
  | .filling p => some (s.advance i (.aborted p) s.tree)
  | _ => none

def step : Event ι → Option (State ι)
  | .create i token => s.create directory jobs i token
  | .append i bytes => s.append jobs i bytes
  | .publish i => s.publish directory jobs i
  | .abort i => s.abort i

end State

def run (directory : Path) (jobs : ι → Job) (s : State ι) : List (Event ι) → Option (State ι)
  | [] => some s
  | e :: rest => (s.step directory jobs e).bind fun s' => run directory jobs s' rest

variable {d : Location} {jobs : ι → Job} {s s' : State ι} {e : Event ι}

theorem run_append (directory : Path) (jobs : ι → Job) (s : State ι) (front rest : List (Event ι)) :
    run directory jobs s (front ++ rest) =
      (run directory jobs s front).bind fun s' => run directory jobs s' rest := by
  induction front generalizing s with
  | nil => rfl
  | cons e front ih =>
    rw [List.cons_append, run, run]
    cases s.step directory jobs e with
    | none => rfl
    | some s' => exact ih s'

theorem run_concat {directory : Path} {front : List (Event ι)}
    (h : run directory jobs s (front ++ [e]) = some s') :
    ∃ s₁, run directory jobs s front = some s₁ ∧ s₁.step directory jobs e = some s' := by
  rw [run_append, Option.bind_eq_some_iff] at h
  obtain ⟨s₁, hfront, hrest⟩ := h
  rw [run, Option.bind_eq_some_iff] at hrest
  obtain ⟨s₂, hstep, hnil⟩ := hrest
  cases hnil
  exact ⟨s₁, hfront, hstep⟩

/-- What one step can do. -/
inductive Did (d : Location) (jobs : ι → Job) (s : State ι) : Event ι → State ι → Prop
  | create (i : ι) (token : String) (hwaiting : s.stage i = .waiting)
      (hname : Tree.Nameable d.path (World.partName (jobs i).name token))
      (hfree : s.tree.node? (d ++ [World.partName (jobs i).name token]) = none) :
      Did d jobs s (.create i token) (s.advance i
        (.filling ⟨World.partName (jobs i).name token, s.tree.contents.size, []⟩)
        (s.tree.newFile (d ++ [World.partName (jobs i).name token])))
  | append (i : ι) (bytes : Bytes) (p : Part) (hfilling : s.stage i = .filling p)
      (hbody : p.written ++ bytes <+: (jobs i).body) :
      Did d jobs s (.append i bytes) (s.advance i
        (.filling { p with written := p.written ++ bytes })
        (s.tree.setContent p.id (s.tree.content p.id ++ bytes)))
  | publish (i : ι) (p : Part) (hfilling : s.stage i = .filling p)
      (hbody : p.written = (jobs i).body) (n : Node)
      (hnode : s.tree.node? (d ++ [p.name]) = some n)
      (hfree : s.tree.node? (d ++ [(jobs i).name]) ≠ some .directory) :
      Did d jobs s (.publish i) (s.advance i (.published p)
        (s.tree.moved (d ++ [p.name]) (d ++ [(jobs i).name]) n))
  | abort (i : ι) (p : Part) (hfilling : s.stage i = .filling p) :
      Did d jobs s (.abort i) (s.advance i (.aborted p) s.tree)

theorem did_of_create {i : ι} {token : String} (hleads : s.tree.LeadsTo d.path d)
    (h : s.create d.path jobs i token = some s') : Did d jobs s (.create i token) s' := by
  simp only [State.create] at h
  split at h
  · rename_i hwaiting
    split at h
    · rename_i id tree hcreate
      obtain ⟨d', hd', hname, hfree, rfl, rfl⟩ :=
        Tree.createFile_child (p := d.path) rfl (World.descends_partName _ _) hcreate
      cases Tree.leadsTo_unique hleads hd'
      cases h
      exact .create i token hwaiting hname hfree
    · cases h
  · cases h

theorem did_of_append {i : ι} {bytes : Bytes} (h : s.append jobs i bytes = some s') :
    Did d jobs s (.append i bytes) s' := by
  simp only [State.append] at h
  split at h
  · rename_i p hfilling
    split at h
    · rename_i hbody
      cases h
      exact .append i bytes p hfilling hbody
    · cases h
  · cases h

theorem did_of_publish {i : ι} (hleads : s.tree.LeadsTo d.path d)
    (hjobs : ∀ i, Path.Descends (jobs i).name)
    (hparts : ∀ i p, s.stage i = .filling p → Path.Descends p.name)
    (h : s.publish d.path jobs i = some s') : Did d jobs s (.publish i) s' := by
  simp only [State.publish] at h
  split at h
  · rename_i p hfilling
    split at h
    · rename_i hbody
      split at h
      · rename_i tree hrename
        obtain ⟨l, n, k, old, hsource, htarget, hold, rfl⟩ := Tree.rename_eq_ok hrename
        obtain ⟨d₁, hd₁, _, hplace₁⟩ :=
          Tree.locate_child_eq_ok (p := d.path) rfl (hparts i p hfilling) hsource
        obtain ⟨d₂, hd₂, _, hplace₂⟩ := Tree.locate_child_eq_ok (p := d.path) rfl (hjobs i) htarget
        cases Tree.leadsTo_unique hleads hd₁
        cases Tree.leadsTo_unique hleads hd₂
        simp only [Tree.Place.mk.injEq] at hplace₁ hplace₂
        obtain ⟨rfl, hnode⟩ := hplace₁
        obtain ⟨rfl, rfl⟩ := hplace₂
        cases h
        exact .publish i p hfilling hbody n hnode.symm hold
      · cases h
    · cases h
  · cases h

theorem did_of_abort {i : ι} (h : s.abort i = some s') : Did d jobs s (.abort i) s' := by
  simp only [State.abort] at h
  split at h
  · rename_i p hfilling
    cases h
    exact .abort i p hfilling
  · cases h

theorem did_of_step (hleads : s.tree.LeadsTo d.path d) (hjobs : ∀ i, Path.Descends (jobs i).name)
    (hparts : ∀ i p, s.stage i = .filling p → Path.Descends p.name)
    (h : s.step d.path jobs e = some s') : Did d jobs s e s' := by
  cases e with
  | create i token => exact did_of_create hleads h
  | append i bytes => exact did_of_append h
  | publish i => exact did_of_publish hleads hjobs hparts h
  | abort i => exact did_of_abort h

end FileExchange.Interleaving

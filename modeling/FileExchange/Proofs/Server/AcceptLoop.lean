import FileExchange.Proofs.Server.Handlers

/-!
# The accept loop

From opening the listening socket to closing it. Each event brings at most one connection, every connection
whose socket takes the timeout is handed over in its turn, and none of them ends the loop.
-/

set_option autoImplicit false

namespace FileExchange

namespace World

/-- The world once so many more connections have been accepted. -/
def admitted (w : World) (count : Nat) : World :=
  { w with accepted := w.accepted + count }

theorem Notes.admitted {w w' : World} {written : List Record} (h : Notes w w' written) (count : Nat) :
    Notes (w.admitted count) (w'.admitted count) written :=
  ⟨h.clock, h.names, congrArg (· + count) h.accepted, h.threshold, h.access⟩

end World

namespace Listening

/-- Nothing has been done with connections. -/
structure Aside (x y : Listening Host) : Prop where
  owner : y.owner = x.owner
  notes : x.world.Notes y.world []

theorem Aside.refl (x : Listening Host) : Aside x x :=
  ⟨rfl, .refl _⟩

theorem Aside.trans {x y z : Listening Host} (h : Aside x y) (h' : Aside y z) : Aside x z :=
  ⟨h'.owner.trans h.owner, h.notes.trans h'.notes⟩

/-- These arrivals have been accepted as connections, and each of those has its handler. -/
structure Admits (config : ServerConfig) (x y : Listening Host) (as : List Arrival) (ps : List Admitted) : Prop where
  taken : Host.takeInAll config x.world.connectionNames x.world.accepted as = .ok ps
  site : y.owner.site = x.owner.site
  handlers : ∃ new, y.owner.handlers = x.owner.handlers ++ new ∧ List.Forall₂ (Host.Underway x.owner.site) ps new
  notes : ∃ written, (x.world.admitted as.length).Notes y.world written ∧
    List.Forall₂ x.owner.site.TellsOf ((ps.filter fun p => p.starts && !p.waits).map (·.connection)) written

theorem Admits.trans {config : ServerConfig} {x y z : Listening Host} {before after : List Arrival}
    {ps qs : List Admitted} (h : Admits config x y before ps) (h' : Admits config y z after qs) :
    Admits config x z (before ++ after) (ps ++ qs) := by
  obtain ⟨htaken, hsite, ⟨new, hnew, hunder⟩, written, hnotes, htold⟩ := h
  obtain ⟨htaken', hsite', ⟨new', hnew', hunder'⟩, written', hnotes', htold'⟩ := h'
  have hnames : y.world.connectionNames = x.world.connectionNames := hnotes.names
  have haccepted : y.world.accepted = x.world.accepted + before.length := hnotes.accepted
  rw [hnames, haccepted] at htaken'
  rw [hsite] at hunder' htold'
  refine ⟨Host.takeInAll_append htaken htaken', hsite'.trans hsite,
    ⟨new ++ new', ?_, List.rel_append hunder hunder'⟩, written ++ written', ?_, ?_⟩
  · rw [hnew', hnew, List.append_assoc]
  · have hlater := hnotes.admitted after.length
    have hcount : (x.world.admitted before.length).admitted after.length =
        x.world.admitted (before ++ after).length := by
      simp only [World.admitted, List.length_append, Nat.add_assoc]
    rw [hcount] at hlater
    exact hlater.trans hnotes'
  · rw [List.filter_append, List.map_append]
    exact List.rel_append htold htold'

variable {config : ServerConfig}

/-- These events have been met. Once the socket is open, nothing ends the loop but its last event or the
want of others. -/
def Meets (config : ServerConfig) (opened : Prop) (events : List Event) (x y : Listening Host)
    (left : List Event) : Prop :=
  ∃ met ps, events = met ++ left ∧ Admits config x y (arrivals met) ps ∧
    (opened → left = [] ∨ ∃ before e, met = before ++ [e] ∧ e.mayEnd = true)

section Meets

variable {opened : Prop} {events left rest : List Event} {e : Event} {ps : List Admitted} {x y z : Listening Host}

theorem Meets.cons (h : Admits config x y (arrivals [e]) ps) (hrest : Meets config True rest y z left) :
    Meets config opened (e :: rest) x z left := by
  obtain ⟨met, qs, hmet, hadmits, hended⟩ := hrest
  refine ⟨e :: met, ps ++ qs, congrArg (e :: ·) hmet, ?_, fun _ => ?_⟩
  · rw [arrivals_cons]
    exact h.trans hadmits
  · refine (hended trivial).imp id ?_
    rintro ⟨before, last, rfl, hmay⟩
    exact ⟨e :: before, last, rfl, hmay⟩

theorem Meets.mono {sooner : Prop} (hmeets : Meets config opened events x y left)
    (h : sooner → opened) : Meets config sooner events x y left := by
  obtain ⟨met, ps, hmet, hadmits, hended⟩ := hmeets
  exact ⟨met, ps, hmet, hadmits, fun hsooner => hended (h hsooner)⟩

end Meets

/-- A connection whose socket does not take the timeout has no handler, and the loop ends with that failure. -/
theorem acceptLoop_of_refused {x : Listening Host} (hrunning : x.listener.running = true) {a : Arrival} {e : Failure}
    (h : (a.peer.setTimeout config.timeout).1 = .error e) (rest : List Event) :
    acceptLoop Host.handOver config (.connection a :: rest) x =
      (.failed e, { x.poll with world := x.world.admitted 1 }, rest) := by
  rw [acceptLoop, if_pos hrunning, meet, Host.accept_of_refused _ _ h]
  rfl

/-! ## From opening the socket to closing it -/

end Listening

end FileExchange

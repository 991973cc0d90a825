import FileExchange.Proofs.Serve.Moves

/-!
# Access records

However serving a connection goes, one access record tells of it, and the connection is closed at the end.
-/

set_option autoImplicit false

namespace FileExchange

open Serving

namespace Journal

/-- The records that were written for the access log. -/
def access (j : Journal) : List Record :=
  j.records.toList.filter (·.speaker == .access)

/-- Those of some records that are kept. -/
def kept (j : Journal) (written : List Record) : List Record :=
  written.filter fun r => j.threshold.rank ≤ r.level.rank

@[simp] theorem threshold_add (j : Journal) (r : Record) : (j.add r).threshold = j.threshold := by
  unfold add
  split <;> rfl

theorem access_add_of_ne {r : Record} (j : Journal) (h : r.speaker ≠ .access) :
    (j.add r).access = j.access := by
  unfold add
  split
  · simp [access, h]
  · rfl

theorem access_add_of_eq {r : Record} (j : Journal) (h : r.speaker = .access) :
    (j.add r).access = j.access ++ j.kept [r] := by
  unfold add
  split
  · rename_i hkept
    simp [access, kept, h, hkept]
  · rename_i hkept
    simp [kept, hkept]

end Journal

namespace World

/-- These records have been written to the access log; who comes next and what time it is are as they
were. -/
structure Notes (w w' : World) (written : List Record) : Prop where
  clock : w'.clock = w.clock
  names : w'.connectionNames = w.connectionNames
  accepted : w'.accepted = w.accepted
  threshold : w'.journal.threshold = w.journal.threshold
  access : w'.journal.access = w.journal.access ++ w.journal.kept written

theorem Notes.refl (w : World) : Notes w w [] :=
  ⟨rfl, rfl, rfl, rfl, (List.append_nil _).symm⟩

theorem Notes.trans {w w' w'' : World} {first second : List Record} (h : Notes w w' first)
    (h' : Notes w' w'' second) : Notes w w'' (first ++ second) := by
  refine ⟨h'.clock.trans h.clock, h'.names.trans h.names, h'.accepted.trans h.accepted,
    h'.threshold.trans h.threshold, ?_⟩
  rw [h'.access, h.access, Journal.kept, Journal.kept, Journal.kept, h.threshold, List.filter_append,
    List.append_assoc]

theorem notes_log {speaker : Speaker} (w : World) (level : Level) (h : speaker ≠ .access)
    (message : String) : Notes w (w.log level speaker message) [] := by
  refine ⟨rfl, rfl, rfl, Journal.threshold_add _ _, ?_⟩
  exact (Journal.access_add_of_ne (r := ⟨level, speaker, message⟩) w.journal h).trans
    (List.append_nil _).symm

end World

namespace Exchange

/-- Whose connection it is has not changed, and it has not been closed. -/
structure Goes (x y : Exchange) : Prop where
  notes : x.toWorld.Notes y.toWorld []
  id : y.connection.id = x.connection.id
  clientIp : y.connection.clientIp = x.connection.clientIp
  live : x.connection.phase ≠ .closed → y.connection.phase ≠ .closed

theorem Goes.refl (x : Exchange) : Goes x x :=
  ⟨.refl _, rfl, rfl, fun h => h⟩

theorem Goes.trans {x y z : Exchange} (h : Goes x y) (h' : Goes y z) : Goes x z :=
  ⟨h.notes.trans h'.notes, h'.id.trans h.id, h'.clientIp.trans h.clientIp,
    fun hlive => h'.live (h.live hlive)⟩

theorem goes_of_move {x y : Exchange} (h : Move x y) : Goes x y := by
  cases h with
  | report level speaker message hspeaker =>
    exact ⟨World.notes_log _ _ hspeaker _, rfl, rfl, fun h => h⟩
  | enter phase hphase => exact ⟨.refl _, rfl, rfl, fun _ => hphase⟩
  | line =>
    obtain ⟨_, _, _, hframe⟩ := x.connection.readLine_frame
    rw [hframe]
    exact ⟨.refl _, rfl, rfl, fun _ => nofun⟩
  | body size =>
    obtain ⟨_, _, hframe⟩ := x.connection.takeBody_frame size
    rw [hframe]
    exact ⟨.refl _, rfl, rfl, fun _ => nofun⟩
  | change tree drawn => exact ⟨⟨rfl, rfl, rfl, rfl, (List.append_nil _).symm⟩, rfl, rfl, fun h => h⟩
  | send bytes =>
    unfold sendBytes
    split
    · exact ⟨.refl _, rfl, rfl, fun h => h⟩
    · exact ⟨.refl _, rfl, rfl, fun h => h⟩

theorem goes_of_moves {x y : Exchange} (h : Moves x y) : Goes x y := by
  induction h with
  | refl => exact .refl x
  | tail _ hmove ih => exact ih.trans (goes_of_move hmove)

end Exchange

/-! ## One record for each connection -/

/-- An access record about a connection. -/
def Site.TellsOf (s : Site) (c : Connection) (r : Record) : Prop :=
  ∃ a : AccessRecord, r = a.record s.logFormat .info ∧ a.requestId = c.id ∧ a.clientIp = c.clientIp

namespace Site

end Site

end FileExchange

import FileExchange.Proofs.Serve.Sites

/-!
# Targets

The path that a target stands for below the root, and what it resolves to: a path inside the root with
plain names, nothing, or a loop of links.
-/

set_option autoImplicit false

namespace FileExchange

namespace Site

open Serving

/-! ## Targets -/

theorem written_eq (s : Site) (target : String) :
    s.written target = ⟨s.root.anchor, s.root.names ++ Path.namesOf target⟩ := by
  have hrelative : (Path.ofString
      (String.ofList (target.toList.dropWhile (· == '/')))).isAbsolute = false := by
    have hhead : (target.toList.dropWhile (· == '/')).head? ≠ some '/' := by
      intro h
      have := List.head?_dropWhile_not (· == '/') target.toList
      simp [h] at this
    simp [Path.isAbsolute, Path.ofString, Path.anchorOf_eq_relative hhead]
  simp only [written, Path.join, hrelative]
  simp [Path.ofString, Path.namesOf_dropWhile]

theorem resolve_eq_some {s : Site} {t : Tree} {target : String} {p : Path} {record : Option Record}
    (h : s.resolve t target = .ok (some p, record)) :
    s.realPath t (s.written target) = .ok p ∧ isWithin s.root p = true ∧ record = none := by
  unfold resolve at h
  split at h
  · rename_i q hq
    split at h
    · rename_i hwithin
      simp only [Except.ok.injEq, Prod.mk.injEq, Option.some.injEq] at h
      obtain ⟨rfl, rfl⟩ := h
      exact ⟨hq, hwithin, rfl⟩
    · simp at h
  · cases h
  · simp at h

theorem realPath_of_resolve {s : Site} {t : Tree} {target : String} {p : Path} {record : Option Record}
    (hopen : s.denials = []) (h : s.resolve t target = .ok (some p, record)) :
    t.realPath (s.written target) = .ok p := by
  have hreal := (resolve_eq_some h).1
  rw [realPath_of_open hopen] at hreal
  exact (Tree.resolve_eq_ok hreal).1

theorem resolve_eq_error {s : Site} {t : Tree} {target : String} {e : Failure}
    (h : s.resolve t target = .error e) : ∃ path, e = .linkLoop path := by
  unfold resolve at h
  split at h
  · split at h <;> cases h
  · cases h
    exact ⟨_, rfl⟩
  · cases h

theorem written_isAbsolute {s : Site} (hroot : s.root.isAbsolute = true) (target : String) :
    (s.written target).isAbsolute = true := by
  rw [written_eq]
  exact hroot

theorem slash_notMem_written {s : Site} (hroot : ∀ n ∈ s.root.names, Path.IsPlain n) (target : String) :
    ∀ n ∈ (s.written target).names, '/' ∉ n.toList := by
  rw [written_eq]
  intro n hn
  rcases List.mem_append.mp hn with hn | hn
  · exact (hroot n hn).1.2.2
  · exact (Path.isName_of_mem_namesOf hn).2.2

theorem resolve_isPlain {t : Tree} {s : Site} {target : String} {p : Path} {record : Option Record}
    (habsolute : s.root.isAbsolute = true) (hroot : ∀ n ∈ s.root.names, Path.IsPlain n)
    (h : s.resolve t target = .ok (some p, record)) : ∀ n ∈ p.names, Path.IsPlain n := by
  refine Tree.realPath_isPlain ?_ (slash_notMem_written hroot target) (realPath_eq_ok (resolve_eq_some h).1).1
  rw [Tree.start_of_isAbsolute (written_isAbsolute habsolute target)]
  simp

theorem resolve_of_isWithin {s : Site} {t : Tree} {target : String} {p : Path}
    (h : s.realPath t (s.written target) = .ok p) (hwithin : isWithin s.root p = true) :
    s.resolve t target = .ok (some p, none) := by
  unfold resolve
  rw [h]
  exact if_pos hwithin

theorem isWithin_iff (root p : Path) :
    isWithin root p = true ↔ root.anchor = p.anchor ∧ root.names <+: p.names := by
  simp [isWithin]

end Site

end FileExchange

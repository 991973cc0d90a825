import FileExchange.Proofs.Text.Decoding
import FileExchange.Proofs.Text.Percent

/-!
# Characters behind escapes

A character of ASCII that does not stand in a text itself is in what the text decodes to exactly if the text
holds an escape of it.
-/

set_option autoImplicit false

namespace FileExchange.Percent

open Text

/-- A percent sign with two hexadecimal digits behind it, of either case, that stand for a byte. -/
def Escapes (b : UInt8) (s : List Char) : Prop :=
  ∃ x y u v, hexValue? x = some u ∧ hexValue? y = some v ∧ UInt8.ofNat (u * 16 + v) = b ∧
    ['%', x, y] <:+: s

/-! ## Escapes in front of a text -/

theorem isAscii_of_hexValue? {c : Char} {n : Nat} (h : hexValue? c = some n) : isAscii c = true := by
  unfold hexValue? at h
  dsimp only at h
  split_ifs at h with hdigit hupper hlower
  all_goals
    simp only [Bool.and_eq_true, decide_eq_true_eq] at *
    simp only [isAscii, decide_eq_true_eq]
    omega

theorem not_escapes_nil (b : UInt8) : ¬ Escapes b [] := by
  rintro ⟨x, y, u, v, _, _, _, hinfix⟩
  cases List.infix_nil.mp hinfix

theorem Escapes.cons {b : UInt8} {s : List Char} (h : Escapes b s) (c : Char) : Escapes b (c :: s) := by
  obtain ⟨x, y, u, v, hx, hy, hb, hinfix⟩ := h
  exact ⟨x, y, u, v, hx, hy, hb, List.infix_cons hinfix⟩

/-- An escape stands at the front or behind the first character. -/
theorem escapes_cons {b : UInt8} {c : Char} {s : List Char} (h : Escapes b (c :: s)) :
    (∃ x y u v rest, c = '%' ∧ s = x :: y :: rest ∧ hexValue? x = some u ∧ hexValue? y = some v ∧
      UInt8.ofNat (u * 16 + v) = b) ∨ Escapes b s := by
  obtain ⟨x, y, u, v, hx, hy, hb, hinfix⟩ := h
  rcases List.infix_cons_iff.mp hinfix with hprefix | hrest
  · obtain ⟨rest, hrest⟩ := hprefix
    cases hrest
    exact Or.inl ⟨x, y, u, v, rest, rfl, rfl, hx, hy, hb⟩
  · exact Or.inr ⟨x, y, u, v, hx, hy, hb, hrest⟩

theorem escapes_cons_of_ne {b : UInt8} {c : Char} {s : List Char} (hc : c ≠ '%') :
    Escapes b (c :: s) ↔ Escapes b s := by
  refine ⟨fun h => ?_, fun h => h.cons c⟩
  rcases escapes_cons h with ⟨_, _, _, _, _, rfl, _⟩ | hrest
  · exact absurd rfl hc
  · exact hrest

theorem ne_percent_of_hexValue? {c : Char} {n : Nat} (h : hexValue? c = some n) : c ≠ '%' := by
  rintro rfl
  have hnone : hexValue? '%' = none := by decide
  cases hnone.symm.trans h

/-! ## One run -/

/-- What reading a run adds are the bytes of its escapes and those of the characters that stand for themselves. -/
theorem mem_unescapeOnto {b : UInt8} {out : Bytes} {run : List Char}
    (h : ∀ c ∈ run, UInt8.ofNat c.toNat ≠ b) : b ∈ unescapeOnto out run ↔ b ∈ out ∨ Escapes b run := by
  fun_induction unescapeOnto out run with
  | case1 out => exact ⟨Or.inl, fun hor => hor.resolve_right (not_escapes_nil b)⟩
  | case2 out x y rest u v hy hx ih =>
    have hrest : Escapes b (x :: y :: rest) ↔ Escapes b rest :=
      (escapes_cons_of_ne (ne_percent_of_hexValue? hx)).trans (escapes_cons_of_ne (ne_percent_of_hexValue? hy))
    have hfront : Escapes b ('%' :: x :: y :: rest) ↔ b = UInt8.ofNat (u * 16 + v) ∨ Escapes b rest := by
      constructor
      · intro hescapes
        rcases escapes_cons hescapes with ⟨_, _, u', v', _, _, heq, hx', hy', hb⟩ | hbehind
        · cases heq
          cases hx.symm.trans hx'
          cases hy.symm.trans hy'
          exact Or.inl hb.symm
        · exact Or.inr (hrest.mp hbehind)
      · rintro (rfl | hbehind)
        · exact ⟨x, y, u, v, hx, hy, rfl, ⟨[], rest, rfl⟩⟩
        · exact (hrest.mpr hbehind).cons '%'
    rw [ih fun c hc => h c (by simp [hc]), List.mem_cons, hfront, or_assoc, or_left_comm]
  | case3 out x y rest hnone ih =>
    have hfront : Escapes b ('%' :: x :: y :: rest) ↔ Escapes b (x :: y :: rest) := by
      refine ⟨fun hescapes => ?_, fun hbehind => hbehind.cons '%'⟩
      rcases escapes_cons hescapes with ⟨_, _, u, v, _, _, heq, hx, hy, _⟩ | hbehind
      · cases heq
        exact absurd hy (hnone u v hx)
      · exact hbehind
    have hpercent : b ≠ 0x25 := fun hb => h '%' List.mem_cons_self hb.symm
    rw [ih fun c hc => h c (List.mem_cons_of_mem _ hc), List.mem_cons, hfront]
    simp [hpercent]
  | case4 out c rest hplain ih =>
    have hfront : Escapes b (c :: rest) ↔ Escapes b rest := by
      refine ⟨fun hescapes => ?_, fun hbehind => hbehind.cons c⟩
      rcases escapes_cons hescapes with ⟨x, y, _, _, _, rfl, rfl, _⟩ | hbehind
      · exact absurd rfl (hplain x y _ rfl)
      · exact hbehind
    have hself : b ≠ UInt8.ofNat c.toNat := fun hb => h c List.mem_cons_self hb.symm
    rw [ih fun d hd => h d (List.mem_cons_of_mem _ hd), List.mem_cons, hfront]
    simp [hself]

theorem mem_unescape {b : UInt8} {run : List Char} (h : ∀ c ∈ run, UInt8.ofNat c.toNat ≠ b) :
    b ∈ unescape run ↔ Escapes b run := by
  rw [unescape, List.mem_reverse, mem_unescapeOnto h]
  exact or_iff_right List.not_mem_nil

/-- A character of ASCII is decoded exactly where its byte stands. -/
theorem mem_decodeChars_iff {c : Char} (hc : c.toNat < 0x80) (hnul : c ≠ '\x00') {bytes : Bytes} :
    c ∈ Utf8.decodeChars bytes ↔ UInt8.ofNat c.toNat ∈ bytes := by
  refine ⟨Utf8.mem_decodeChars hc hnul, fun hmem => ?_⟩
  have hbyte : (UInt8.ofNat c.toNat).toNat = c.toNat := Utf8.toNat_ofNat (by omega)
  obtain ⟨front, back, rfl⟩ := List.append_of_mem hmem
  rw [Utf8.decodeChars_ascii front (by rwa [hbyte]) back, hbyte, Char.ofNat_toNat]
  exact List.mem_append_right _ List.mem_cons_self

theorem mem_decodeRun {c : Char} (hc : c.toNat < 0x80) (hnul : c ≠ '\x00') {run : List Char} (h : c ∉ run) :
    c ∈ decodeRun run ↔ run.all isAscii = true ∧ Escapes (UInt8.ofNat c.toNat) run := by
  unfold decodeRun
  split
  · rename_i hascii
    have hne : ∀ d ∈ run, UInt8.ofNat d.toNat ≠ UInt8.ofNat c.toNat := by
      intro d hd heq
      have hsmall : d.toNat < 0x80 := by simpa [isAscii] using List.all_eq_true.mp hascii d hd
      have hnat := congrArg UInt8.toNat heq
      rw [Utf8.toNat_ofNat (by omega), Utf8.toNat_ofNat (by omega)] at hnat
      exact h (Char.toNat_inj.mp hnat ▸ hd)
    rw [mem_decodeChars_iff hc hnul, mem_unescape hne]
    exact (and_iff_right hascii).symm
  · rename_i hascii
    exact iff_of_false h fun hand => hascii hand.1

/-! ## Runs of a text -/

/-- What belongs together stands inside one of the parts of a text that is cut only where nothing belongs together. -/
theorem exists_mem_infix_flatten {α : Type} (r : α → α → Bool) {w : List α} (hw : w ≠ [])
    (hchain : w.IsChain fun a b => r a b = true) {parts : List (List α)} (hne : [] ∉ parts)
    (hcut : parts.IsChain fun m n => ∃ hm hn, r (m.getLast hm) (n.head hn) = false)
    (h : w <:+: parts.flatten) : ∃ part ∈ parts, w <:+: part := by
  induction parts with
  | nil => exact absurd (List.infix_nil.mp h) hw
  | cons part parts ih =>
    have hbehind : w <:+: parts.flatten → ∃ part' ∈ part :: parts, w <:+: part' := by
      intro hinfix
      obtain ⟨part', hmem, hpart'⟩ := ih (fun hnil => hne (List.mem_cons_of_mem _ hnil)) hcut.tail hinfix
      exact ⟨part', List.mem_cons_of_mem _ hmem, hpart'⟩
    obtain ⟨before, after, heq⟩ := h
    rw [List.flatten_cons] at heq
    rcases List.append_eq_append_iff.mp heq with ⟨more, hpart, _⟩ | ⟨beyond, hbeyond, hrest⟩
    · exact ⟨part, List.mem_cons_self, before, more, hpart.symm⟩
    · rcases List.append_eq_append_iff.mp hbeyond with ⟨front, hpart, hsplit⟩ | ⟨gap, _, hgap⟩
      · have hacross := (List.isChain_append.mp (hsplit ▸ hchain)).2.2
        rcases List.eq_nil_or_concat front with rfl | ⟨front', x, rfl⟩
        · exact hbehind ⟨[], after, by rw [hrest, hsplit]; rfl⟩
        cases beyond with
        | nil =>
          refine ⟨part, List.mem_cons_self, before, [], ?_⟩
          rw [hpart, hsplit, List.append_nil, List.append_nil]
        | cons y beyond =>
          -- the two sides of the cut would belong together
          have hrel := hacross x (by simp) y rfl
          cases parts with
          | nil => cases hrest
          | cons next more =>
            obtain ⟨⟨hm, hn, hbreak⟩, _⟩ := List.isChain_cons_cons.mp hcut
            obtain ⟨z, next', rfl⟩ := List.exists_cons_of_ne_nil hn
            obtain rfl : z = y := (List.cons.inj hrest).1
            subst hpart
            simp [hrel] at hbreak
      · exact hbehind ⟨gap, after, by rw [hrest, hgap]⟩

theorem flatten_runs (s : List Char) : (runs s).flatten = s :=
  List.flatten_splitBy _ s

theorem all_isAscii_of_chain {run : List Char} (h : run.IsChain fun a b => (isAscii a == isAscii b) = true)
    {c : Char} (hc : c ∈ run) (hascii : isAscii c = true) : run.all isAscii = true := by
  have hsame : (run.map isAscii).Pairwise (· = ·) := by
    refine List.isChain_iff_pairwise.mp ((List.isChain_map isAscii).mpr (h.imp fun a b hab => ?_))
    exact beq_iff_eq.mp hab
  have hall := hsame.forall_of_forall fun _ _ => rfl
  refine List.all_eq_true.mpr fun d hd => ?_
  rw [← hascii]
  exact hall (List.mem_map_of_mem hd) (List.mem_map_of_mem hc)

/-- An escape is never cut by the end of a run. -/
theorem escapes_iff_run {b : UInt8} {s : List Char} :
    Escapes b s ↔ ∃ run ∈ runs s, run.all isAscii = true ∧ Escapes b run := by
  constructor
  · rintro ⟨x, y, u, v, hx, hy, hb, hinfix⟩
    have hchain : ['%', x, y].IsChain fun a b => (isAscii a == isAscii b) = true := by
      have hpercent : isAscii '%' = true := by decide
      simp [hpercent, isAscii_of_hexValue? hx, isAscii_of_hexValue? hy]
    have hcut := List.isChain_getLast_head_splitBy (fun a b => isAscii a == isAscii b) s
    rw [← flatten_runs s] at hinfix
    obtain ⟨run, hrun, hmem⟩ := exists_mem_infix_flatten _ (List.cons_ne_nil _ _) hchain
      (List.nil_notMem_splitBy _ s) hcut hinfix
    refine ⟨run, hrun, ?_, x, y, u, v, hx, hy, hb, hmem⟩
    exact all_isAscii_of_chain (List.isChain_of_mem_splitBy hrun) (hmem.subset List.mem_cons_self) (by decide)
  · rintro ⟨run, hrun, _, x, y, u, v, hx, hy, hb, hinfix⟩
    obtain ⟨front, back, hsplit⟩ := List.append_of_mem hrun
    refine ⟨x, y, u, v, hx, hy, hb, hinfix.trans ⟨front.flatten, back.flatten, ?_⟩⟩
    have hflatten := flatten_runs s
    rw [hsplit] at hflatten
    simpa using hflatten

/-- A character of ASCII that a text does not hold is decoded from it exactly if the text holds an escape of it. -/
theorem mem_decodeChars {c : Char} (hc : c.toNat < 0x80) (hnul : c ≠ '\x00') {s : List Char} (h : c ∉ s) :
    c ∈ decodeChars s ↔ Escapes (UInt8.ofNat c.toNat) s := by
  have hrun : ∀ run ∈ runs s, c ∉ run := by
    intro run hrun hmem
    rw [← flatten_runs s] at h
    exact h (List.mem_flatten.mpr ⟨run, hrun, hmem⟩)
  rw [decodeChars, List.mem_flatMap, escapes_iff_run]
  exact exists_congr fun run => and_congr_right fun hmem => mem_decodeRun hc hnul (hrun run hmem)

end FileExchange.Percent

import ProgramArt.Proofs.Tape.Grammar

/-!
# The pairing of the brackets

The jump table of a program is the pairing of its brackets. `IsPairing` says what a pairing is without saying how to
find one: it belongs to all brackets and to nothing else, goes from an opening bracket forward to a closing one and
back, and what stands inside of a pair is balanced. There is only one such pairing (`IsPairing.unique`), and any two
of its pairs are nested or disjoint (`Partners.nested`).
-/

namespace ProgramArt.Tape

/-! ## Brackets that belong to each other -/

/-- An opening bracket has only one partner. -/
theorem Partners.right_unique {instrs : List Instr} {i j j' : Nat} (h : Partners instrs i j)
    (h' : Partners instrs i j') : j = j' := by
  -- the nearer one would be a closing bracket between the opening one and the farther one
  have hnear : ∀ {j j'}, Partners instrs i j → Partners instrs i j' → ¬ j < j' := by
    intro j j' h h' hlt
    have hinside := h'.inside
    obtain ⟨hj, hcloses⟩ := List.getElem?_eq_some_iff.mp h.closes
    have hsplit : (instrs.take j').drop (i + 1)
        = (instrs.take j).drop (i + 1) ++ .leave :: (instrs.take j').drop (j + 1) := by
      have hlen : j < (instrs.take j').length := by simp; omega
      conv_lhs => rw [← List.take_append_drop j (instrs.take j')]
      rw [List.drop_append_of_le_length (by have := h.lt; simp; omega), List.take_take,
        Nat.min_eq_left (Nat.le_of_lt hlt), ← List.getElem_cons_drop hlen, List.getElem_take, hcloses]
    rw [hsplit] at hinside
    exact h.inside.not_append_leave _ hinside
  exact Nat.le_antisymm (Nat.le_of_not_lt (hnear h' h)) (Nat.le_of_not_lt (hnear h h'))

/-- A bracket inside of a pair has its partner inside of the pair. -/
theorem Partners.inner {instrs : List Instr} {i j k l : Nat} (h : Partners instrs i j)
    (h' : Partners instrs k l) (hik : i < k) (hkj : k < j) : l < j := by
  obtain ⟨before, body, after, rfl, hbody, rfl, rfl⟩ := partners_iff.mp h
  obtain ⟨m, rfl⟩ : ∃ m, k = (before ++ [Instr.enter]).length + m :=
    ⟨k - before.length - 1, by simp; omega⟩
  have hm : m < body.length := by simp at hkj; omega
  have heq : before ++ .enter :: (body ++ .leave :: after)
      = (before ++ [.enter]) ++ (body ++ .leave :: after) := by simp
  -- the inner bracket is one of the body, where it has a partner, and it has no other one
  have hopens := h'.opens
  rw [heq, List.getElem?_append_right (Nat.le_add_right _ _), Nat.add_sub_cancel_left,
    List.getElem?_append_left hm] at hopens
  obtain ⟨n, hn⟩ := hbody.exists_partner hopens
  have hwhole := hn.of_append (before ++ [.enter]) (.leave :: after)
  rw [← heq] at hwhole
  rw [h'.right_unique hwhole]
  have hlt : n < body.length := (List.getElem?_eq_some_iff.mp hn.closes).1
  simp
  omega

/-- Two pairs are the same, or disjoint, or nested. -/
theorem Partners.nested {instrs : List Instr} {i j k l : Nat} (h : Partners instrs i j)
    (h' : Partners instrs k l) :
    (i = k ∧ j = l) ∨ (j < k ∨ l < i) ∨ (i < k ∧ l < j) ∨ (k < i ∧ j < l) := by
  -- a place with an opening bracket is none with a closing one
  have hplaces : ∀ {a b c d}, Partners instrs a b → Partners instrs c d → a ≠ d := by
    rintro a b c d hab hcd rfl
    simpa [hab.opens] using hcd.closes
  have hkj := hplaces h' h
  have hil := hplaces h h'
  rcases Nat.lt_trichotomy i k with hlt | rfl | hgt
  · by_cases hout : j < k
    · exact .inr (.inl (.inl hout))
    · exact .inr (.inr (.inl ⟨hlt, h.inner h' hlt (by omega)⟩))
  · exact .inl ⟨rfl, h.right_unique h'⟩
  · by_cases hout : l < i
    · exact .inr (.inl (.inr hout))
    · exact .inr (.inr (.inr ⟨hgt, h'.inner h hgt (by omega)⟩))

/-! ## The jump table -/

/-- The brackets of the loops of a code belong to each other. -/
theorem Code.partners_of_mem_pairs {code : Code} {position i j : Nat} (h : (i, j) ∈ code.pairs position) :
    ∃ a b, i = position + a ∧ j = position + b ∧ Partners code.instrs a b := by
  induction code generalizing position with
  | done => simp [pairs] at h
  | act action rest ih =>
      obtain ⟨a, b, rfl, rfl, hab⟩ := ih h
      have hshift := hab.of_append [action.instr] []
      rw [List.append_nil] at hshift
      exact ⟨1 + a, 1 + b, by omega, by omega, hshift⟩
  | loop body rest ihbody ihrest =>
      simp only [pairs, List.mem_append, List.mem_cons, Prod.mk.injEq] at h
      rcases h with h | ⟨rfl, rfl⟩ | h
      · obtain ⟨a, b, rfl, rfl, hab⟩ := ihbody h
        have hshift := hab.of_append [.enter] (.leave :: rest.instrs)
        exact ⟨1 + a, 1 + b, by omega, by omega, hshift⟩
      · refine ⟨0, 1 + body.size, rfl, by omega, ?_⟩
        rw [partners_iff]
        exact ⟨[], body.instrs, rest.instrs, rfl, wellNested_iff_code.mpr ⟨body, rfl⟩, rfl, by simp⟩
      · obtain ⟨a, b, rfl, rfl, hab⟩ := ihrest h
        have hshift := hab.of_append (.enter :: (body.instrs ++ [.leave])) []
        refine ⟨body.size + 2 + a, body.size + 2 + b, by omega, by omega, ?_⟩
        simpa [instrs, Nat.add_assoc] using hshift

/-- **The table sends two places to each other if their brackets are partners,** and no place anywhere
else. -/
theorem JumpTable.at?_eq_some_iff {instrs : List Instr} {table : JumpTable}
    (h : jumpTable instrs = .ok table) {i j : Nat} :
    table.at? i = some j ↔ Partners instrs i j ∨ Partners instrs j i := by
  obtain ⟨code, rfl⟩ := wellNested_iff_code.mp (jumpTable_ok_iff.mp ⟨table, h⟩)
  rw [jumpTable_instrs, Except.ok.injEq] at h
  have hpartners : ∀ {a b}, (a, b) ∈ code.pairs 0 ↔ Partners code.instrs a b := by
    intro a b
    constructor
    · intro hmem
      obtain ⟨a', b', rfl, rfl, hab⟩ := Code.partners_of_mem_pairs hmem
      simpa using hab
    · intro hab
      have hends : a ∈ ends (code.pairs 0) :=
        Code.mem_ends_pairs.mpr ⟨a, .enter, by omega, hab.opens, rfl⟩
      obtain ⟨c, hc | hc⟩ := mem_ends.mp hends
      · obtain ⟨a', c', rfl, rfl, hac⟩ := Code.partners_of_mem_pairs hc
        simp only [Nat.zero_add] at hab hc ⊢
        rwa [hab.right_unique hac]
      · obtain ⟨c', a', rfl, rfl, hca⟩ := Code.partners_of_mem_pairs hc
        simp only [Nat.zero_add] at hab
        simpa [hab.opens] using hca.closes
  rw [← h, JumpTable.at?_ofPairs, hpartners, hpartners]

/-! ## Pairings -/

/-- A map is a pairing of the brackets of a list. -/
structure IsPairing (instrs : List Instr) (partner : Nat → Option Nat) : Prop where
  /-- It is defined on the brackets and nowhere else. -/
  isSome_iff : ∀ i, (partner i).isSome = true
    ↔ ∃ instr, instrs[i]? = some instr ∧ instr.isBracket = true
  /-- It goes there and back. -/
  symm : ∀ i j, partner i = some j → partner j = some i
  /-- It leaves no bracket where it is. -/
  ne : ∀ i j, partner i = some j → i ≠ j
  /-- It goes from an opening bracket forward to a closing one. -/
  forward : ∀ i, instrs[i]? = some .enter → ∃ j, partner i = some j ∧ i < j ∧ instrs[j]? = some .leave
  /-- What stands inside of a pair is balanced. -/
  inside : ∀ i j, i < j → partner i = some j → isBalanced ((instrs.take j).drop (i + 1)) = true
  /-- Two pairs are the same, or disjoint, or nested. -/
  nested : ∀ i j k l, i < j → k < l → partner i = some j → partner k = some l →
    (i = k ∧ j = l) ∨ (j < k ∨ l < i) ∨ (i < k ∧ l < j) ∨ (k < i ∧ j < l)

namespace IsPairing

variable {instrs : List Instr} {partner other : Nat → Option Nat}

/-- A pairing sends an opening bracket to its partner. -/
theorem exists_partners (h : IsPairing instrs partner) {i : Nat} (hopens : instrs[i]? = some .enter) :
    ∃ j, partner i = some j ∧ Partners instrs i j := by
  obtain ⟨j, hj, hlt, hcloses⟩ := h.forward i hopens
  exact ⟨j, hj, hlt, hopens, hcloses, isBalanced_iff_wellNested.mp (h.inside i j hlt hj)⟩

/-- A pairing that sends the opening brackets to their partners does the same with the closing ones. -/
theorem eq_some_of_partners (h : IsPairing instrs partner) {i j : Nat} (hij : Partners instrs i j) :
    partner i = some j ∧ partner j = some i := by
  obtain ⟨j', hj', hpartners⟩ := h.exists_partners hij.opens
  rw [hpartners.right_unique hij] at hj'
  exact ⟨hj', h.symm i j hj'⟩

/-- If every closing bracket has a partner, there is only one pairing. -/
theorem unique (h : IsPairing instrs partner) (h' : IsPairing instrs other)
    (hcloses : ∀ j, instrs[j]? = some .leave → ∃ i, Partners instrs i j) : other = partner := by
  funext i
  by_cases hbracket : ∃ instr, instrs[i]? = some instr ∧ instr.isBracket = true
  · obtain ⟨instr, hget, hinstr⟩ := hbracket
    obtain rfl | rfl | ⟨action, rfl⟩ := instr.kinds
    · obtain ⟨j, hj, hpartners⟩ := h.exists_partners hget
      rw [hj, (h'.eq_some_of_partners hpartners).1]
    · obtain ⟨k, hk⟩ := hcloses i hget
      rw [(h.eq_some_of_partners hk).2, (h'.eq_some_of_partners hk).2]
    · simp at hinstr
  · have hnone : ∀ {map}, IsPairing instrs map → map i = none := by
      intro map hmap
      rw [← hmap.isSome_iff] at hbracket
      simpa using hbracket
    rw [hnone h, hnone h']

end IsPairing

/-- The partners of the brackets of a list that has a table. -/
theorem exists_at?_of_isBracket {instrs : List Instr} {table : JumpTable}
    (h : jumpTable instrs = .ok table) {i : Nat} {instr : Instr} (hget : instrs[i]? = some instr)
    (hinstr : instr.isBracket = true) : ∃ j, table.at? i = some j := by
  obtain ⟨code, rfl⟩ := wellNested_iff_code.mp (jumpTable_ok_iff.mp ⟨table, h⟩)
  rw [jumpTable_instrs, Except.ok.injEq] at h
  obtain ⟨j, hj⟩ := mem_ends.mp (Code.mem_ends_pairs.mpr ⟨i, instr, (Nat.zero_add i).symm, hget, hinstr⟩)
  exact ⟨j, by rw [← h, JumpTable.at?_ofPairs]; exact hj⟩

theorem isPairing_at? {instrs : List Instr} {table : JumpTable} (h : jumpTable instrs = .ok table) :
    IsPairing instrs table.at? where
  isSome_iff i := by
    constructor
    · intro hsome
      obtain ⟨j, hj⟩ := Option.isSome_iff_exists.mp hsome
      rcases (JumpTable.at?_eq_some_iff h).mp hj with hij | hji
      · exact ⟨.enter, hij.opens, rfl⟩
      · exact ⟨.leave, hji.closes, rfl⟩
    · rintro ⟨instr, hget, hinstr⟩
      obtain ⟨j, hj⟩ := exists_at?_of_isBracket h hget hinstr
      simp [hj]
  symm i j hij := by
    rw [JumpTable.at?_eq_some_iff h] at hij ⊢
    exact hij.symm
  ne i j hij := by
    rcases (JumpTable.at?_eq_some_iff h).mp hij with hij | hji
    · exact Nat.ne_of_lt hij.lt
    · exact Nat.ne_of_gt hji.lt
  forward i hopens := by
    obtain ⟨j, hj⟩ := exists_at?_of_isBracket h hopens rfl
    rcases (JumpTable.at?_eq_some_iff h).mp hj with hij | hji
    · exact ⟨j, hj, hij.lt, hij.closes⟩
    · simpa [hopens] using hji.closes
  inside i j hlt hij := by
    rw [isBalanced_iff_wellNested]
    rcases (JumpTable.at?_eq_some_iff h).mp hij with hij | hji
    · exact hij.inside
    · exact absurd hji.lt (by omega)
  nested i j k l hij hkl hi hk := by
    rcases (JumpTable.at?_eq_some_iff h).mp hi with hi | hi
    · rcases (JumpTable.at?_eq_some_iff h).mp hk with hk | hk
      · exact hi.nested hk
      · exact absurd hk.lt (by omega)
    · exact absurd hi.lt (by omega)

/-- **The jump table is the pairing of the brackets.** A balanced list is a program. The table that is built
for it is a pairing of its brackets, there is no other one, and a program answers with the table when it is
asked for the partner of a bracket. -/
theorem jumpTable_isPairing {instrs : List Instr} (h : isBalanced instrs = true) :
    ∃ program, Program.ofInstrs instrs = .ok program ∧ jumpTable instrs = .ok program.jumps
      ∧ IsPairing instrs program.jumps.at?
      ∧ (∀ other, IsPairing instrs other → other = program.jumps.at?)
      ∧ ∀ i : Nat, program.partner? i = program.jumps.at? i := by
  obtain ⟨program, hprogram, hinstrs⟩ := Program.exists_ofInstrs h
  have htable := program.jumps_eq
  rw [hinstrs] at htable
  have hpairing := isPairing_at? htable
  refine ⟨program, hprogram, htable, hpairing, fun other hother => ?_, fun i => ?_⟩
  · refine hpairing.unique hother fun j hcloses => ?_
    obtain ⟨i, hi⟩ := exists_at?_of_isBracket htable hcloses rfl
    rcases (JumpTable.at?_eq_some_iff htable).mp hi with hji | hij
    · simpa [hcloses] using hji.opens
    · exact ⟨i, hij⟩
  · simp [Program.partner?, JumpTable.at?]

/-- Two loops inside of another one. -/
theorem jumpTable_isPairing_twoInside :
    isBalanced (read "[[-]>[+[,]]]") = true
      ∧ ∃ program, Program.ofInstrs (read "[[-]>[+[,]]]") = .ok program
        ∧ jumpTable (read "[[-]>[+[,]]]") = .ok program.jumps
        ∧ IsPairing (read "[[-]>[+[,]]]") program.jumps.at?
        ∧ (∀ other, IsPairing (read "[[-]>[+[,]]]") other → other = program.jumps.at?)
        ∧ ∀ i : Nat, program.partner? i = program.jumps.at? i := by
  have hbalanced : isBalanced (read "[[-]>[+[,]]]") = true := by decide
  exact ⟨hbalanced, jumpTable_isPairing hbalanced⟩

end ProgramArt.Tape

import Decaf.Proofs.Code.Writing
import Decaf.Proofs.Machine.Placement

/-!
# Blocks of generated code

The code of an expression is a block that leaves new temporaries behind and all others alone.
`Delivers` says this of a block, whatever it calculates; `Simulates` says which words the new
temporaries stand for when a machine has run it. Blocks that follow each other make up a larger
block.
-/

namespace Decaf

/-- The labels of a block have numbers from a range, each is defined once, and the jumps of the
block lead to them or to given labels around it. -/
structure Labelled (first last : Nat) (outer : List String) (block : List Instruction) : Prop where
  numbered : ∀ name ∈ labelsOf block, ∃ number,
    first ≤ number ∧ number < last ∧ name = Label.inner number
  nodup : (labelsOf block).Nodup
  targets : ∀ name ∈ targetsOf block, name ∈ labelsOf block ∨ name ∈ outer

namespace Labelled

variable {first middle last : Nat} {outer : List String} {block more : List Instruction}
variable {outer : List String}

theorem of_isPlain (isPlain : ∀ instruction ∈ block, instruction.IsPlain) :
    Labelled first last outer block := by
  have noLabels : labelsOf block = [] := by
    refine List.filterMap_eq_nil_iff.mpr fun instruction isEmitted => ?_
    have plain := isPlain instruction isEmitted
    cases instruction <;> first | rfl | exact plain.elim
  have noTargets : targetsOf block = [] := by
    refine List.filterMap_eq_nil_iff.mpr fun instruction isEmitted => ?_
    have plain := isPlain instruction isEmitted
    cases instruction <;> first | rfl | exact plain.elim
  refine ⟨?_, ?_, ?_⟩ <;> simp [noLabels, noTargets]

theorem append (left : Labelled first middle outer block) (right : Labelled middle last outer more)
    (firstLe : first ≤ middle) (lastLe : middle ≤ last) :
    Labelled first last outer (block ++ more) where
  numbered name isLabel := by
    rw [labelsOf_append] at isLabel
    rcases List.mem_append.mp isLabel with isLeft | isRight
    · rcases left.numbered name isLeft with ⟨number, isAfter, isBefore, nameEq⟩
      exact ⟨number, isAfter, by omega, nameEq⟩
    · rcases right.numbered name isRight with ⟨number, isAfter, isBefore, nameEq⟩
      exact ⟨number, by omega, isBefore, nameEq⟩
  nodup := by
    rw [labelsOf_append]
    refine List.nodup_append.mpr ⟨left.nodup, right.nodup, ?_⟩
    rintro name isLeft _ isRight rfl
    rcases left.numbered name isLeft with ⟨number, _, isBefore, rfl⟩
    rcases right.numbered _ isRight with ⟨other, isAfter, _, same⟩
    have := Label.inner_injective same
    omega
  targets name isTarget := by
    rw [targetsOf_append] at isTarget
    rw [labelsOf_append, List.mem_append]
    rcases List.mem_append.mp isTarget with isLeft | isRight
    · exact (left.targets name isLeft).imp_left .inl
    · exact (right.targets name isRight).imp_left .inr

theorem mono {smaller larger : Nat} (labelled : Labelled first last outer block)
    (firstLe : smaller ≤ first) (lastLe : last ≤ larger) {more : List String}
    (subset : outer ⊆ more) : Labelled smaller larger more block where
  numbered name isLabel := by
    rcases labelled.numbered name isLabel with ⟨number, isAfter, isBefore, nameEq⟩
    exact ⟨number, by omega, by omega, nameEq⟩
  nodup := labelled.nodup
  targets name isTarget := (labelled.targets name isTarget).imp_right fun isOuter => subset isOuter

/-- A label of its own is put somewhere into a block; the block may have jumped to it before. -/
theorem insert {front behind : List Instruction}
    (labelled : Labelled (first + 1) last (Label.inner first :: outer) (front ++ behind))
    (firstLt : first < last) :
    Labelled first last outer (front ++ .label (Label.inner first) :: behind) := by
  have labelsEq : (labelsOf (front ++ .label (Label.inner first) :: behind)).Perm
      (Label.inner first :: labelsOf (front ++ behind)) := by
    rw [labelsOf_append, labelsOf_append]
    exact List.perm_middle
  have targetsEq : targetsOf (front ++ .label (Label.inner first) :: behind) =
      targetsOf (front ++ behind) := by
    rw [targetsOf_append, targetsOf_append]
    rfl
  refine ⟨?_, ?_, ?_⟩
  · intro name isLabel
    rcases List.mem_cons.mp (labelsEq.mem_iff.mp isLabel) with rfl | isOther
    · exact ⟨first, Nat.le_refl _, firstLt, rfl⟩
    · rcases labelled.numbered name isOther with ⟨number, isAfter, isBefore, nameEq⟩
      exact ⟨number, by omega, isBefore, nameEq⟩
  · refine labelsEq.nodup_iff.mpr (List.nodup_cons.mpr ⟨fun isOther => ?_, labelled.nodup⟩)
    rcases labelled.numbered _ isOther with ⟨number, isAfter, _, same⟩
    have := Label.inner_injective same
    omega
  · intro name isTarget
    rw [targetsEq] at isTarget
    rw [labelsEq.mem_iff]
    rcases labelled.targets name isTarget with isLabel | isOuter
    · exact .inl (List.mem_cons_of_mem _ isLabel)
    · rcases List.mem_cons.mp isOuter with rfl | isOuter
      · exact .inl List.mem_cons_self
      · exact .inr isOuter

/-- The same behind the block. -/
theorem insertLast (labelled : Labelled (first + 1) last (Label.inner first :: outer) block)
    (firstLt : first < last) : Labelled first last outer (block ++ [.label (Label.inner first)]) :=
  insert ((List.append_nil block).symm ▸ labelled) firstLt

theorem widen (labelled : Labelled first last outer block) {larger : List String}
    (subset : outer ⊆ larger) : Labelled first last larger block :=
  labelled.mono (Nat.le_refl _) (Nat.le_refl _) subset

/-- A jump to a given label. -/
theorem jump {instruction : Instruction} (noLabel : instruction.label? = none) (outer : List String)
    (isTarget : ∀ name, instruction.target? = some name → name ∈ outer) :
    Labelled first last outer [instruction] := by
  have labelsEq : labelsOf [instruction] = [] := by simp [labelsOf, noLabel]
  refine ⟨by simp [labelsEq], by simp [labelsEq], ?_⟩
  intro name isHere
  rcases List.mem_filterMap.mp isHere with ⟨_, isInstruction, targetEq⟩
  exact .inr (isTarget name (List.mem_singleton.mp isInstruction ▸ targetEq))

end Labelled

namespace Generation

variable {before between after : Generation} {block more : List Instruction} {made : List Temporary}

theorem Ready.unpinned_of (wellFormed : before.pool.WellFormed)
    (enough : 3 ≤ before.pool.registers.length) : before.unpinned.Ready where
  wellFormed := (Emits.unpinned wellFormed).wellFormed
  enough := (Emits.unpinned wellFormed).length_eq ▸ enough
  unpinned := by
    intro register resident held isPinned
    have mapped : before.unpinned.pool.content? register =
        (before.pool.content? register).map fun resident => { resident with isPinned := false } :=
      RegisterPool.content?_mapResidents _ _ _
    rw [mapped, Option.map_eq_some_iff] at held
    rcases held with ⟨_, _, rfl⟩
    cases isPinned

theorem Ready.of_emits (ready : before.Ready) {moved : List Temporary}
    (emits : Emits before after block moved) : after.unpinned.Ready :=
  .unpinned_of emits.wellFormed (emits.length_eq ▸ ready.enough)

/-! ## What a block leaves behind -/

/-- A block leaves new temporaries behind; it touches no others, and its jumps stay inside. -/
structure Delivers (before after : Generation) (block : List Instruction) (made : List Temporary) :
    Prop where
  emits : Emits before after block []
  exchanges : before.pool.Exchanges after.pool [] made
  nodup : made.Nodup
  ready : after.Ready
  labelled : Labelled before.emitter.nextLabel after.emitter.nextLabel [] block

/-- Code without jumps uses temporaries up and makes others. -/
def Performs (before after : Generation) (used made : List Temporary) : Prop :=
  ∃ block, Emits before after block used ∧ before.pool.Exchanges after.pool used made ∧
    ∀ instruction ∈ block, instruction.IsPlain

theorem Performs.unpinned {used : List Temporary} (performs : Performs before after used made) :
    Performs before after.unpinned used made := by
  rcases performs with ⟨block, emits, exchanges, isPlain⟩
  refine ⟨block, ?_, ⟨fun temporary => ?_, exchanges.fresh⟩, isPlain⟩
  · simpa using emits.trans (Emits.unpinned emits.wellFormed)
  · rw [isLive_unpinned emits.wellFormed, exchanges.isLive_iff]

namespace Delivers

variable {result : List Temporary}

theorem nil (ready : before.Ready) : Delivers before before [] [] :=
  ⟨.refl ready.wellFormed, .refl _, List.nodup_nil, ready, .of_isPlain (by simp)⟩

theorem append {moreMade : List Temporary} (early : Delivers before between block made)
    (late : Delivers between after more moreMade) :
    Delivers before after (block ++ more) (made ++ moreMade) where
  emits := early.emits.trans late.emits
  exchanges := early.exchanges.keep late.exchanges early.emits.next_le (by simp)
  nodup := by
    refine List.nodup_append.mpr ⟨early.nodup, late.nodup, ?_⟩
    rintro temporary isEarly _ isLate rfl
    have isLive := (early.exchanges.isLive_iff temporary).mpr (.inr isEarly)
    exact Nat.not_lt.mpr (late.exchanges.fresh temporary isLate)
      (early.emits.wellFormed.lt_of_isLive isLive)
  ready := late.ready
  labelled := early.labelled.append late.labelled early.emits.nextLabel_le late.emits.nextLabel_le

/-- The temporaries of a block are used up by code without jumps. -/
theorem perform (early : Delivers before between block made) (wellFormed : before.pool.WellFormed)
    (emits : Emits between after more made)
    (exchanges : between.pool.Exchanges after.pool made result)
    (isPlain : ∀ instruction ∈ more, instruction.IsPlain) (nodup : result.Nodup)
    (ready : after.Ready) : Delivers before after (block ++ more) result where
  emits := by
    refine (early.emits.trans emits).narrow fun temporary isMoved => .inr fun isLive => ?_
    exact Nat.not_lt.mpr (early.exchanges.fresh temporary (by simpa using isMoved))
      (wellFormed.lt_of_isLive isLive)
  exchanges := early.exchanges.consume exchanges wellFormed early.emits.next_le
  nodup := nodup
  ready := ready
  labelled :=
    early.labelled.append (.of_isPlain isPlain) early.emits.nextLabel_le emits.nextLabel_le

theorem exists_perform (early : Delivers before between block made)
    (wellFormed : before.pool.WellFormed) (performs : Performs between after made result)
    (nodup : result.Nodup) : ∃ larger, Delivers before after.unpinned larger result := by
  rcases performs.unpinned with ⟨more, emits, exchanges, isPlain⟩
  rcases performs with ⟨_, plainEmits, _, _⟩
  exact ⟨block ++ more, early.perform wellFormed emits exchanges isPlain nodup
    (early.ready.of_emits plainEmits)⟩

end Delivers

/-! ## What a block calculates -/

/-- What is calculated from a memory: words and the memory afterwards, or nothing if the machine
stops. -/
abbrev Calculation (Result : Type) := Primitives → Memory → Option (Result × Memory)

/-- A machine that runs a block gets to its end, and then the new temporaries stand for these words;
or it stops on the way, where there are none. -/
def Simulates (before after : Generation) (block : List Instruction) (made : List Temporary)
    (calculation : Calculation (List Word)) : Prop :=
  ∀ (primitives : Primitives) (code : List Instruction) (first : Nat) (machine : Machine)
    (contents : Temporary → Word) (memory : Memory),
    Placed code first block → (labelsOf code).Nodup →
    before.Tracks machine contents memory →
      Running.Arrives primitives code ⟨first, machine⟩ (first + block.length)
      (calculation primitives memory)
        fun outcome last => ∃ others,
          (∀ temporary, before.pool.IsLive temporary → others temporary = contents temporary) ∧
            made.map others = outcome.1 ∧ after.Tracks last others outcome.2

namespace Simulates

variable {calculation : Calculation (List Word)}

theorem nil : Simulates before before [] [] fun _ memory => some ([], memory) :=
  fun _ _ _ _ _ _ _ _ tracks => .here ⟨_, fun _ _ => rfl, rfl, tracks⟩

theorem append {moreMade : List Temporary} {later : Calculation (List Word)}
    (early : Simulates before between block made calculation)
    (late : Simulates between after more moreMade later)
    (exchanges : before.pool.Exchanges between.pool [] made) :
    Simulates before after (block ++ more) (made ++ moreMade) fun primitives memory =>
      (calculation primitives memory).bind fun outcome =>
        (later primitives outcome.2).map fun rest => (outcome.1 ++ rest.1, rest.2) := by
  intro primitives code first machine contents memory placed distinct tracks
  rw [List.length_append, ← Nat.add_assoc]
  refine (early _ _ _ _ _ _ placed.left distinct tracks).bind (Nat.le_add_right _ _) ?_
  rintro ⟨words, middle⟩ last _ ⟨others, same, wordsEq, tracksBetween⟩
  refine (late _ _ _ _ _ _ placed.right distinct tracksBetween).map ?_
  rintro ⟨rest, final⟩ lastLast ⟨finals, sameBetween, restEq, tracksFinal⟩
  have isLive : ∀ temporary, before.pool.IsLive temporary ∨ temporary ∈ made →
      between.pool.IsLive temporary := by
    rintro temporary (isOld | isMade)
    · exact (exchanges.isLive_iff temporary).mpr (.inl ⟨isOld, List.not_mem_nil⟩)
    · exact (exchanges.isLive_iff temporary).mpr (.inr isMade)
  refine ⟨finals, ?_, ?_, tracksFinal⟩
  · intro temporary isOld
    rw [sameBetween temporary (isLive temporary (.inl isOld)), same temporary isOld]
  · have kept : made.map finals = made.map others :=
      List.map_congr_left fun temporary isMade =>
        sameBetween temporary (isLive temporary (.inr isMade))
    rw [List.map_append, kept, wordsEq, restEq]

/-- The words of a block go into an operation. -/
theorem perform {result : Temporary} {effect : Effect} {act : List Word → Calculation Word}
    (early : Simulates before between block made calculation)
    (exchanges : before.pool.Exchanges between.pool [] made)
    (computes : Computes between after more result effect)
    (base_eq : between.pool.spillBase = after.pool.spillBase)
    (fresh : between.pool.nextTemporary ≤ result.index) (wellFormed : between.pool.WellFormed)
    (effectEq : ∀ primitives memory contents, effect primitives memory contents =
      act (made.map contents) primitives memory) :
    Simulates before after (block ++ more) [result] fun primitives memory =>
      (calculation primitives memory).bind fun outcome =>
        (act outcome.1 primitives outcome.2).map fun outcome => ([outcome.1], outcome.2) := by
  intro primitives code first machine contents memory placed distinct tracks
  rw [List.length_append, ← Nat.add_assoc]
  refine (early _ _ _ _ _ _ placed.left distinct tracks).bind (Nat.le_add_right _ _) ?_
  rintro ⟨words, middle⟩ last _ ⟨others, same, wordsEq, tracksBetween⟩
  have executed := @computes.executes primitives last middle others tracksBetween.holds
    tracksBetween.isShown
  rw [effectEq, wordsEq] at executed
  refine (Running.arrives_of_straight (fun instruction isEmitted =>
    (computes.isPlain instruction isEmitted).isStraight) placed.right executed).map ?_
  rintro ⟨word, later⟩ final ⟨holds, isShown⟩
  refine ⟨_, ?_, ?_, ⟨holds, base_eq ▸ isShown⟩⟩
  · intro temporary isLive
    have stillLive := (exchanges.isLive_iff temporary).mpr (.inl ⟨isLive, List.not_mem_nil⟩)
    rw [Function.update_of_ne, same temporary isLive]
    rintro rfl
    exact Nat.not_lt.mpr fresh (wellFormed.lt_of_isLive stillLive)
  · simp

end Simulates

/-- An operation without jumps behind a block: both what it leaves behind and what it calculates. -/
theorem Delivers.exists_yields {result : Temporary} {effect : Effect}
    (early : Delivers before between block made) (wellFormed : before.pool.WellFormed)
    (yields : Yields between after made result effect) :
    ∃ larger, Delivers before after.unpinned larger [result] ∧
      after.unpinned.pool.IsResident result ∧
      ∀ {calculation : Calculation (List Word)} {act : List Word → Calculation Word},
        Simulates before between block made calculation →
          (∀ primitives memory contents, effect primitives memory contents =
            act (made.map contents) primitives memory) →
          Simulates before after.unpinned larger [result] fun primitives memory =>
            (calculation primitives memory).bind fun outcome =>
              (act outcome.1 primitives outcome.2).map fun outcome => ([outcome.1], outcome.2) := by
  rcases yields.unpinned with ⟨more, emits, exchanges, computes⟩
  rcases yields with ⟨_, plainEmits, _, _⟩
  refine ⟨block ++ more, early.perform wellFormed emits exchanges computes.isPlain
    (List.nodup_singleton _) (early.ready.of_emits plainEmits), computes.isResident, ?_⟩
  intro calculation act simulates effectEq
  exact simulates.perform early.exchanges computes emits.base_eq.symm
    (exchanges.fresh result (by simp)) early.emits.wellFormed effectEq

end Generation

end Decaf

import Decaf.Proofs.Control.Walking

/-!
# Lowering keeps the order of events

A walk through the pieces of a statement meets what a reading of the statement meets, and leaves the
pieces as the reading leaves the statement: at their end, at the labels of the loop around it, or by
a `return`. Where the fuel of the reading is used up the walk has taken at least as many steps.
-/

namespace Decaf

namespace Piece

variable {pieces : List Piece} {name : String} {index : Nat}

/-- A label that is defined once is found where it is defined. -/
theorem find?_eq (distinct : (pieces.filterMap label?).Nodup)
    (found : pieces[index]? = some (.label name)) : find? pieces name = some index := by
  induction pieces generalizing index with
  | nil => simp at found
  | cons piece pieces ih =>
    rw [find?, List.findIdx?_cons]
    cases index with
    | zero =>
      rw [List.getElem?_cons_zero, Option.some.injEq] at found
      simp [found, label?]
    | succ index =>
      rw [List.getElem?_cons_succ] at found
      have isLabel : name ∈ pieces.filterMap label? :=
        List.mem_filterMap.mpr ⟨_, List.mem_of_getElem? found, rfl⟩
      have differs : piece.label? ≠ some name := by
        intro same
        rw [List.filterMap_cons, same] at distinct
        exact (List.nodup_cons.mp distinct).1 isLabel
      have rest :=
        ih (distinct.sublist (List.Sublist.filterMap _ (List.sublist_cons_self _ _))) found
      rw [find?] at rest
      simp [differs, rest]

theorem labels_sublist (pieces : List Piece) :
    (pieces.filterMap label?).Sublist (labelsOf (flatten pieces)) := by
  induction pieces with
  | nil => exact List.Sublist.refl _
  | cons piece pieces ih =>
    rw [flatten_cons, labelsOf_append]
    cases piece with
    | label name => exact ih.cons_cons name
    | _ => exact ih.trans (List.sublist_append_right _ _)

/-- A label of the pieces is found in their code where its piece is. -/
theorem idxOf?_code {code front behind : List Instruction}
    (codeEq : code = front ++ flatten pieces ++ behind) (distinct : (labelsOf code).Nodup)
    (found : pieces[index]? = some (.label name)) :
    code.idxOf? (.label name) = some (front.length + (flatten (pieces.take index)).length) := by
  obtain ⟨inRange, isLabel⟩ := List.getElem?_eq_some_iff.mp found
  have piecesEq : pieces = pieces.take index ++ .label name :: pieces.drop (index + 1) := by
    rw [← isLabel, ← List.drop_eq_getElem_cons, List.take_append_drop]
  refine idxOf?_label distinct ?_
  have flattenEq : flatten pieces =
      flatten (pieces.take index) ++ .label name :: flatten (pieces.drop (index + 1)) := by
    conv => lhs; rw [piecesEq]
    rw [flatten_append, flatten_cons]
    rfl
  rw [codeEq, flattenEq]
  simp

end Piece

namespace Control

/-- Where the jumps out of the innermost loop lead. -/
structure Exits where
  onBreak : Option Nat
  onContinue : Option Nat

namespace Exits

/-- The labels of a loop, as places of pieces. -/
def ofLabels (pieces : List Piece) (loop : Option LoopLabels) : Exits where
  onBreak := loop.bind fun labels => Piece.find? pieces labels.breakTo
  onContinue := loop.bind fun labels => Piece.find? pieces labels.continueTo

/-- Where control is when a statement is left. -/
def Allows (exits : Exits) (size behind fuel steps : Nat) : Exit → Spot → Prop
  | .done, spot => spot = .place behind
  | .broken, spot => ∃ index ∈ exits.onBreak, spot = .place index
  | .continued, spot => ∃ index ∈ exits.onContinue, spot = .place index
  | .returned, spot => spot = .returned
  | .unfinished, spot => fuel ≤ steps ∧ ∃ index < size, spot = .place index

section

variable {exits others : Exits} {size behind end' fuel steps less more : Nat} {exit : Exit}
  {spot : Spot}

theorem Allows.mono (allows : exits.Allows size behind fuel steps exit spot)
    (enough : fuel ≤ steps → less ≤ more) : exits.Allows size behind less more exit spot := by
  cases exit with
  | unfinished => exact ⟨enough allows.1, allows.2⟩
  | _ => exact allows

/-- Only the way in which a statement is left matters. -/
theorem Allows.imp (allows : exits.Allows size behind fuel steps exit spot)
    (onDone : exit = .done → behind = end')
    (onBreak : exit = .broken → exits.onBreak = others.onBreak)
    (onContinue : exit = .continued → exits.onContinue = others.onContinue) :
    others.Allows size end' fuel steps exit spot := by
  cases exit with
  | done => exact onDone rfl ▸ allows
  | broken =>
    rcases allows with ⟨index, isExit, spotEq⟩
    exact ⟨index, onBreak rfl ▸ isExit, spotEq⟩
  | continued =>
    rcases allows with ⟨index, isExit, spotEq⟩
    exact ⟨index, onContinue rfl ▸ isExit, spotEq⟩
  | returned => exact allows
  | unfinished => exact allows

end

end Exits

variable {oracle : Oracle} {pieces : List Piece} {fuel first middle behind : Nat} {exits : Exits}
  {walk other : Walk} {outcome : Outcome} {way next : Way}

/-- A walk comes to the same events as a reading, and to where the reading ends. -/
def Arrives (oracle : Oracle) (pieces : List Piece) (fuel : Nat) (exits : Exits) (behind : Nat)
    (walk : Walk) (outcome : Outcome) : Prop :=
  ∃ steps spot, walk.run oracle pieces steps = ⟨spot, outcome.met⟩ ∧
    exits.Allows pieces.length behind fuel steps outcome.exit spot

namespace Arrives

/-- Steps in front. -/
theorem after {steps : Nat} (ran : walk.run oracle pieces steps = other)
    (arrives : Arrives oracle pieces fuel exits behind other outcome) :
    Arrives oracle pieces (fuel + steps) exits behind walk outcome := by
  rcases arrives with ⟨more, spot, ranMore, allows⟩
  refine ⟨steps + more, spot, by rw [Walk.run_add, ran, ranMore], allows.mono ?_⟩
  omega

theorem mono {less : Nat} (arrives : Arrives oracle pieces fuel exits behind walk outcome)
    (isLess : less ≤ fuel) : Arrives oracle pieces less exits behind walk outcome := by
  rcases arrives with ⟨steps, spot, ran, allows⟩
  exact ⟨steps, spot, ran, allows.mono (Nat.le_trans isLess)⟩

theorem step (arrives : Arrives oracle pieces fuel exits behind (walk.step oracle pieces) outcome) :
    Arrives oracle pieces fuel exits behind walk outcome :=
  (after Walk.run_one arrives).mono (Nat.le_add_right _ _)

/-- Where the end is reached the walk goes on. -/
theorem bind (arrives : Arrives oracle pieces fuel exits middle walk outcome)
    (rest : ∀ met, Arrives oracle pieces fuel exits behind ⟨.place middle, met⟩ (next met)) :
    Arrives oracle pieces fuel exits behind walk
      (if outcome.exit = .done then next outcome.met else outcome) := by
  rcases arrives with ⟨steps, spot, ran, allows⟩
  split
  next isDone =>
    rw [isDone] at allows
    obtain rfl : spot = .place middle := allows
    exact (after ran (rest outcome.met)).mono (Nat.le_add_right _ _)
  next notDone =>
    exact ⟨steps, spot, ran,
      allows.imp (fun isDone => absurd isDone notDone) (fun _ => rfl) fun _ => rfl⟩

end Arrives

/-- The pieces between two places are walked through as a statement is read. -/
def Realizes (oracle : Oracle) (pieces : List Piece) (fuel : Nat) (exits : Exits)
    (first behind : Nat) (way : Way) : Prop :=
  ∀ met, Arrives oracle pieces fuel exits behind ⟨.place first, met⟩ (way met)

namespace Realizes

variable {code : List Instruction} {name : String} {target count : Nat}

theorem leave_done (oracle : Oracle) (pieces : List Piece) (fuel : Nat) (exits : Exits)
    (first : Nat) : Realizes oracle pieces fuel exits first first (.leave .done) :=
  fun _ => ⟨0, _, rfl, rfl⟩

theorem act {stmt : Stmt} (found : pieces[first]? = some (.act stmt code)) :
    Realizes oracle pieces fuel exits first (first + 1) (.act stmt) := by
  refine fun met => ⟨1, _, Walk.step_act found, ?_⟩
  unfold Way.act
  split <;> rfl

theorem andThen (early : Realizes oracle pieces fuel exits first middle way)
    (late : Realizes oracle pieces fuel exits middle behind next) :
    Realizes oracle pieces fuel exits first behind (way.andThen next) :=
  fun met => (early met).bind late

/-- A label in front. -/
theorem label (found : pieces[first]? = some (.label name))
    (realizes : Realizes oracle pieces fuel exits (first + 1) behind way) :
    Realizes oracle pieces fuel exits first behind way :=
  fun met => .step (by rw [Walk.step_label found]; exact realizes met)

theorem labelled (found : pieces[first]? = some (.label name)) :
    Realizes oracle pieces fuel exits first (first + 1) (.leave .done) :=
  label found (leave_done oracle pieces fuel exits (first + 1))

theorem jumped (found : pieces[first]? = some (.jump name))
    (leads : Piece.find? pieces name = some target) :
    Realizes oracle pieces fuel exits first target (.leave .done) :=
  fun met =>
    .step (by rw [Walk.step_jump found leads]; exact leave_done oracle pieces fuel exits target met)

/-- Nothing is met between the end of a statement and the place where control goes on. -/
theorem onward (realizes : Realizes oracle pieces fuel exits first middle way)
    (rest : Realizes oracle pieces fuel exits middle behind (.leave .done)) :
    Realizes oracle pieces fuel exits first behind way := by
  intro met
  have arrives := (realizes met).bind rest
  split at arrives
  next isDone =>
    have outcomeEq : (way met) = Way.leave .done (way met).met := by
      rw [← isDone]; rfl
    rwa [outcomeEq]
  next => exact arrives

theorem choose {condition : Expr} {register : Register} {otherwise : String}
    {no : Way} (found : pieces[first]? = some (.test condition code register otherwise))
    (leads : Piece.find? pieces otherwise = some target)
    (ifTrue : Realizes oracle pieces fuel exits (first + 1) behind way)
    (ifFalse : Realizes oracle pieces fuel exits target behind no) :
    Realizes oracle pieces fuel exits first behind (.choose oracle condition way no) := by
  intro met
  refine .step ?_
  rw [Walk.step_test found leads]
  unfold Way.choose
  dsimp only
  split
  · exact ifTrue _
  · exact ifFalse _

theorem leave_broken (isExit : exits.onBreak = some first) :
    Realizes oracle pieces fuel exits first behind (.leave .broken) :=
  fun _ => ⟨0, _, rfl, first, isExit, rfl⟩

theorem broken (isExit : exits.onBreak = some target)
    (found : pieces[first]? = some (.jump name)) (leads : Piece.find? pieces name = some target) :
    Realizes oracle pieces fuel exits first behind (.leave .broken) :=
  fun _ => ⟨1, _, Walk.step_jump found leads, target, isExit, rfl⟩

theorem continued (isExit : exits.onContinue = some target)
    (found : pieces[first]? = some (.jump name)) (leads : Piece.find? pieces name = some target) :
    Realizes oracle pieces fuel exits first behind (.leave .continued) :=
  fun _ => ⟨1, _, Walk.step_jump found leads, target, isExit, rfl⟩

/-- A `continue` leads to the end of the pieces, so it is none for what is around them. -/
theorem resume {onBreak : Option Nat}
    (realizes : Realizes oracle pieces fuel ⟨onBreak, some behind⟩ first behind way) :
    Realizes oracle pieces fuel ⟨onBreak, none⟩ first behind way.resume := by
  intro met
  rcases realizes met with ⟨steps, spot, ran, allows⟩
  unfold Way.resume
  dsimp only
  split
  next isContinued =>
    rw [isContinued] at allows
    rcases allows with ⟨_, ⟨⟩, rfl⟩
    exact ⟨steps, _, ran, rfl⟩
  next notContinued =>
    exact ⟨steps, spot, ran, allows.imp (fun _ => rfl) (fun _ => rfl) fun isContinued =>
      absurd isContinued notContinued⟩

/-- An iteration leads back to the label in front of it, or behind the loop. -/
theorem loop (found : pieces[first]? = some (.label name))
    (iteration : Realizes oracle pieces fuel ⟨some behind, none⟩ (first + 1) first way)
    (isLess : count ≤ fuel) :
    Realizes oracle pieces count exits first behind (.loop count way) := by
  induction count with
  | zero =>
    exact fun met => ⟨0, _, rfl, Nat.le_refl _, first, (List.getElem?_eq_some_iff.mp found).1, rfl⟩
  | succ count ih =>
    intro met
    -- the label is the step that is taken for the unit of fuel
    refine .after (Walk.run_one.trans (Walk.step_label found)) ?_
    rcases iteration met with ⟨steps, spot, ran, allows⟩
    unfold Way.loop
    dsimp only
    cases exitEq : (way met).exit with
    | done =>
      rw [exitEq] at allows
      obtain rfl : spot = .place first := allows
      exact (Arrives.after ran (ih (by omega) (way met).met)).mono (Nat.le_add_right _ _)
    | broken =>
      rw [exitEq] at allows
      rcases allows with ⟨_, ⟨⟩, rfl⟩
      exact ⟨steps, _, ran, rfl⟩
    | continued =>
      rw [exitEq] at allows
      rcases allows with ⟨_, isExit, _⟩
      cases Option.mem_def.mp isExit
    | returned =>
      refine ⟨steps, spot, ran, ?_⟩
      rw [exitEq] at allows ⊢
      exact allows
    | unfinished =>
      refine ⟨steps, spot, ran, ?_⟩
      rw [exitEq] at allows ⊢
      exact ⟨by have := allows.1; omega, allows.2⟩

/-- A `continue` in the update of a loop leads to the label in front of the update. -/
theorem rerun (found : pieces[first]? = some (.label name)) {onBreak : Option Nat}
    (realizes : Realizes oracle pieces fuel ⟨onBreak, some first⟩ (first + 1) behind way)
    (isLess : count ≤ fuel) :
    Realizes oracle pieces count ⟨onBreak, none⟩ first behind (.rerun count way) := by
  induction count with
  | zero =>
    exact fun met => ⟨0, _, rfl, Nat.le_refl _, first, (List.getElem?_eq_some_iff.mp found).1, rfl⟩
  | succ count ih =>
    intro met
    refine .after (Walk.run_one.trans (Walk.step_label found)) ?_
    rcases realizes met with ⟨steps, spot, ran, allows⟩
    unfold Way.rerun
    dsimp only
    split
    next isContinued =>
      rw [isContinued] at allows
      rcases allows with ⟨_, ⟨⟩, rfl⟩
      exact (Arrives.after ran (ih (by omega) (way met).met)).mono (Nat.le_add_right _ _)
    next notContinued =>
      refine ⟨steps, spot, ran,
          (allows.mono ?_).imp (fun _ => rfl) (fun _ => rfl) fun isContinued =>
            absurd isContinued notContinued⟩
      omega

end Realizes

/-! ## Statements -/

section

variable {context : MethodContext} {loop : Option LoopLabels}
  (distinct : (pieces.filterMap Piece.label?).Nodup)
include distinct

variable {condition : Expr} {code : List Instruction} {register : Register}
  {otherwise name top : String} {block tests : List Piece}

omit distinct in
theorem realizes_all {statements : List Stmt} {parts : List (List Piece)}
    (lengthEq : parts.length = statements.length)
    (each : ∀ pair ∈ statements.zip parts, ∀ first, Placed pieces first pair.2 →
      Realizes oracle pieces fuel exits first (first + pair.2.length) (read oracle fuel pair.1))
    {first : Nat} (placed : Placed pieces first parts.flatten) :
    Realizes oracle pieces fuel exits first (first + parts.flatten.length)
      (readAll oracle fuel statements) := by
  induction statements generalizing parts first with
  | nil =>
    obtain rfl := List.length_eq_zero_iff.mp lengthEq
    exact Realizes.leave_done oracle pieces fuel exits first
  | cons stmt statements ih =>
    rcases parts with _ | ⟨part, parts⟩
    · cases lengthEq
    rw [List.flatten_cons] at placed ⊢
    rw [List.length_append, ← Nat.add_assoc]
    have rest := ih (by simpa using lengthEq)
      (fun pair isPair =>
        each pair (by simp only [List.zip_cons_cons, List.mem_cons]; exact .inr isPair))
        placed.right
    exact (each (stmt, part) (by simp) first placed.left).andThen rest

theorem realizes_ifThen
    (placed : Placed pieces first
      (.test condition code register otherwise :: (block ++ [.label otherwise])))
    (thenRealizes : Realizes oracle pieces fuel exits (first + 1) (first + 1 + block.length) way) :
    Realizes oracle pieces fuel exits first (first + 1 + block.length + 1)
      (.choose oracle condition way (.leave .done)) := by
  have atEnd := placed.tail.right.head
  have behindLabel : Realizes oracle pieces fuel exits _ _ (.leave .done) := .labelled atEnd
  exact .choose placed.head (Piece.find?_eq distinct atEnd) (thenRealizes.onward behindLabel)
    behindLabel

theorem realizes_ifElse {more : List Piece} {no : Way}
    (placed : Placed pieces first (.test condition code register otherwise ::
      (block ++ .jump name :: .label otherwise :: (more ++ [.label name]))))
    (thenRealizes : Realizes oracle pieces fuel exits (first + 1) (first + 1 + block.length) way)
    (elseRealizes : Realizes oracle pieces fuel exits (first + 1 + block.length + 2)
      (first + 1 + block.length + 2 + more.length) no) :
    Realizes oracle pieces fuel exits first (first + 1 + block.length + 2 + more.length + 1)
      (.choose oracle condition way no) := by
  have atElse := placed.tail.right.tail
  have atEnd := atElse.tail.right.head
  have behindLabel : Realizes oracle pieces fuel exits _ _ (.leave .done) := .labelled atEnd
  refine .choose placed.head (Piece.find?_eq distinct atElse.head) ?_
    (.label atElse.head (elseRealizes.onward behindLabel))
  exact thenRealizes.onward
    ((Realizes.jumped placed.tail.right.head (Piece.find?_eq distinct atEnd)).onward behindLabel)

omit distinct in
theorem realizes_option {stmt : Option Stmt} (none? : stmt = none → block = [])
    (some? : ∀ inner ∈ stmt,
      Realizes oracle pieces fuel exits first (first + block.length) (read oracle fuel inner)) :
    Realizes oracle pieces fuel exits first (first + block.length)
      (readOption oracle fuel stmt) := by
  cases stmt with
  | none =>
    obtain rfl := none? rfl
    exact Realizes.leave_done oracle pieces fuel exits first
  | some inner => exact some? inner rfl

/-- A condition in front of an iteration, where there is one. -/
theorem Realizes.guarded {condition : Option Expr} {target : Nat}
    (some? : ∀ expr ∈ condition, ∃ code register, tests = [.test expr code register otherwise])
    (none? : condition = none → tests = []) (placed : Placed pieces first tests)
    (leads : pieces[target]? = some (.label otherwise)) (isExit : exits.onBreak = some target)
    (realizes : Realizes oracle pieces fuel exits (first + tests.length) behind way) :
    Realizes oracle pieces fuel exits first behind (.guarded oracle condition way) := by
  cases condition with
  | none =>
    obtain rfl := none? rfl
    exact realizes
  | some condition =>
    rcases some? condition rfl with ⟨code, register, rfl⟩
    exact .choose placed.head (Piece.find?_eq distinct leads) realizes (.leave_broken isExit)

theorem realizes_whileLoop
    (placed : Placed pieces first
      (.label top :: .test condition code register name :: (block ++ [.jump top, .label name])))
    (realizes : Realizes oracle pieces fuel ⟨some (first + 2 + block.length + 1), some first⟩
      (first + 2) (first + 2 + block.length) way) :
    Realizes oracle pieces fuel exits first (first + 2 + block.length + 2)
      (.loop fuel (.guarded oracle (some condition) way.resume)) := by
  have behindBody := placed.tail.tail.right
  have atTop := Piece.find?_eq distinct placed.head
  have iteration := (realizes.onward (.jumped behindBody.head atTop)).resume
  refine (Realizes.loop placed.head ?_ (Nat.le_refl fuel)).onward (.labelled behindBody.tail.head)
  exact .choose placed.tail.head (Piece.find?_eq distinct behindBody.tail.head)
    iteration (.leave_broken rfl)

/-- The pieces of a `for` loop behind its initializer. -/
theorem realizes_forLoop {condition : Option Expr} {again : String} {updates : List Piece}
    {update : Way}
    (some? : ∀ expr ∈ condition, ∃ code register, tests = [.test expr code register name])
    (none? : condition = none → tests = [])
    (placed : Placed pieces first
      (.label top :: (tests ++ (block ++ .label again :: (updates ++ [.jump top, .label name])))))
    {bodyFirst updateFirst : Nat} (bodyFirstEq : bodyFirst = first + 1 + tests.length)
    (updateFirstEq : updateFirst = bodyFirst + block.length + 1)
    (bodyRealizes : Realizes oracle pieces fuel ⟨some (updateFirst + updates.length + 1),
      some (bodyFirst + block.length)⟩ bodyFirst (bodyFirst + block.length) way)
    (updateRealizes : Realizes oracle pieces fuel ⟨some (updateFirst + updates.length + 1),
      some (bodyFirst + block.length)⟩ updateFirst (updateFirst + updates.length) update) :
    Realizes oracle pieces fuel exits first (updateFirst + updates.length + 2)
      (.loop fuel (.guarded oracle condition (way.resume.andThen (.rerun fuel update)))) := by
  subst bodyFirstEq updateFirstEq
  have atUpdate := placed.tail.right.right
  have behindUpdate := atUpdate.tail.right
  have updated := (updateRealizes.rerun atUpdate.head (Nat.le_refl fuel)).onward
    (.jumped behindUpdate.head (Piece.find?_eq distinct placed.head))
  refine (Realizes.loop placed.head ?_ (Nat.le_refl fuel)).onward (.labelled behindUpdate.tail.head)
  exact .guarded distinct some? none? placed.tail.left behindUpdate.tail.head rfl
    (bodyRealizes.resume.andThen updated)

/-- The pieces of a statement are walked through as it is read. -/
theorem realizes_of_lowered {stmt : Stmt} (lowered : Lowered context loop stmt block)
    (placed : Placed pieces first block)
    (known : ∀ labels ∈ loop, (∃ index, Piece.find? pieces labels.breakTo = some index) ∧
      ∃ index, Piece.find? pieces labels.continueTo = some index) :
    Realizes oracle pieces fuel (.ofLabels pieces loop) first (first + block.length)
      (read oracle fuel stmt) := by
  induction lowered generalizing first with
  | act isSimple fits =>
    rw [read_of_isSimple isSimple]
    exact .act placed.head
  | block lengthEq each ih =>
    exact realizes_all lengthEq (fun pair isPair first isThere =>
      ih pair isPair isThere known) placed
  | ifThen test thenLowered ih =>
    have realizes := realizes_ifThen distinct placed (ih placed.tail.left known)
    simpa [read, Nat.add_assoc, Nat.add_comm, Nat.add_left_comm] using realizes
  | ifElse test thenLowered elseLowered thenIh elseIh =>
    have realizes := realizes_ifElse distinct placed (thenIh placed.tail.left known)
      (elseIh placed.tail.right.tail.tail.left known)
    simpa [read, Nat.add_assoc, Nat.add_comm, Nat.add_left_comm] using realizes
  | @whileLoop loop site condition body code register top name block test bodyLowered ih =>
    have behindBody := placed.tail.tail.right
    have atTop := Piece.find?_eq distinct placed.head
    have atEnd := Piece.find?_eq distinct behindBody.tail.head
    have bodyRealizes := ih placed.tail.tail.left (by rintro _ ⟨⟩; exact ⟨⟨_, atEnd⟩, ⟨_, atTop⟩⟩)
    simp only [Exits.ofLabels, Option.bind_some, atTop, atEnd] at bodyRealizes
    have realizes : Realizes oracle pieces fuel (.ofLabels pieces loop) _ _ _ :=
      realizes_whileLoop distinct placed bodyRealizes
    simpa [read, Nat.add_assoc, Nat.add_comm, Nat.add_left_comm] using realizes
  | @forLoop loop site init condition update body top again name initPieces tests block
      updates initLowered initNone
      testsEq testNone bodyLowered updateLowered updateNone initIh bodyIh updateIh =>
      have loopPlaced := placed.right
      have atUpdate := loopPlaced.tail.right.right
      have atAgain := Piece.find?_eq distinct atUpdate.head
      have atEnd := Piece.find?_eq distinct atUpdate.tail.right.tail.head
      have inside : ∀ labels ∈ some (LoopLabels.mk name again),
          (∃ index, Piece.find? pieces labels.breakTo = some index) ∧
          ∃ index, Piece.find? pieces labels.continueTo = some index := by
        rintro _ ⟨⟩
        exact ⟨⟨_, atEnd⟩, ⟨_, atAgain⟩⟩
      have bodyRealizes := bodyIh loopPlaced.tail.right.left inside
      have updateRealizes := realizes_option updateNone (fun stmt isUpdate => updateIh stmt isUpdate
        atUpdate.tail.left inside)
      simp only [Exits.ofLabels, Option.bind_some, atAgain, atEnd] at bodyRealizes updateRealizes
      have initRealizes := realizes_option initNone fun stmt isInit =>
        initIh stmt isInit placed.left known
      have realizes := initRealizes.andThen (realizes_forLoop distinct
        (fun expr isExpr => (testsEq expr isExpr).imp fun code fits =>
          fits.imp fun register fits => fits.2) testNone
        loopPlaced rfl rfl bodyRealizes updateRealizes)
      rw [read_forLoop]
      simpa [Nat.add_assoc, Nat.add_comm, Nat.add_left_comm] using realizes
  | breakLoop =>
    rcases known _ rfl with ⟨⟨index, leads⟩, _⟩
    exact .broken leads placed.head leads
  | continueLoop =>
    rcases known _ rfl with ⟨_, index, leads⟩
    exact .continued leads placed.head leads

end

/-! ## Bodies -/

/-- A walk through the pieces of a body and a reading of the body have met the same and stand at the
same point. -/
structure InStep (pieces : List Piece) (outcome : Outcome) (walk : Walk) : Prop where
  met_eq : walk.met = outcome.met
  /-- There is no loop around a body. -/
  inside : outcome.exit ≠ .broken ∧ outcome.exit ≠ .continued
  done_iff : outcome.exit = .done ↔ walk.spot = .place pieces.length
  returned_iff : outcome.exit = .returned ↔ walk.spot = .returned

theorem InStep.isOver (inStep : InStep pieces outcome walk) :
    walk.IsOver pieces ↔ outcome.exit ≠ .unfinished := by
  rw [Walk.IsOver, ← inStep.returned_iff, ← inStep.done_iff]
  rcases inStep.inside with ⟨notBroken, notContinued⟩
  cases exitEq : outcome.exit with
  | broken => exact absurd exitEq notBroken
  | continued => exact absurd exitEq notContinued
  | _ => simp

variable {context : MethodContext} {body : Stmt} (lowered : Lowered context none body pieces)
  (distinct : (pieces.filterMap Piece.label?).Nodup)
include lowered distinct

/-- Some number of steps leads as far as the reading goes. -/
theorem exists_inStep (oracle : Oracle) (fuel : Nat) :
    ∃ steps, InStep pieces (read oracle fuel body []) (Walk.start.run oracle pieces steps) ∧
      ((read oracle fuel body []).exit = .unfinished → fuel ≤ steps) := by
  have realizes : Realizes oracle pieces fuel _ _ _ _ :=
    realizes_of_lowered distinct lowered (.whole pieces) (by simp)
  rcases realizes [] with ⟨steps, spot, ran, allows⟩
  rw [Nat.zero_add] at allows
  refine ⟨steps, ?_, ?_⟩
  · rw [Walk.start, ran]
    cases exitEq : (read oracle fuel body []).exit with
    | done =>
      rw [exitEq] at allows
      obtain rfl : spot = .place pieces.length := allows
      exact ⟨rfl, by simp [exitEq], by simp [exitEq], by simp [exitEq]⟩
    | broken =>
      rw [exitEq] at allows
      rcases allows with ⟨_, isExit, _⟩
      cases Option.mem_def.mp isExit
    | continued =>
      rw [exitEq] at allows
      rcases allows with ⟨_, isExit, _⟩
      cases Option.mem_def.mp isExit
    | returned =>
      rw [exitEq] at allows
      obtain rfl : spot = .returned := allows
      exact ⟨rfl, by simp [exitEq], by simp [exitEq], by simp [exitEq]⟩
    | unfinished =>
      rw [exitEq] at allows
      rcases allows with ⟨_, index, inRange, rfl⟩
      exact ⟨rfl, by simp [exitEq], by simp [exitEq, Nat.ne_of_lt inRange], by simp [exitEq]⟩
  · intro isUnfinished
    rw [isUnfinished] at allows
    exact allows.1

/-- A walk of any length is part of what is read with enough fuel. -/
theorem exists_fuel (oracle : Oracle) (steps : Nat) :
    ∃ fuel, (Walk.start.run oracle pieces steps).met <+: (read oracle fuel body []).met ∧
      ((Walk.start.run oracle pieces steps).IsOver pieces →
        InStep pieces (read oracle fuel body []) (Walk.start.run oracle pieces steps)) := by
  rcases exists_inStep lowered distinct oracle steps with ⟨more, inStep, isLong⟩
  refine ⟨steps, ?_⟩
  by_cases isMore : steps ≤ more
  · have grown := @Walk.run_mono oracle pieces .start _ _ isMore
    exact ⟨inStep.met_eq ▸ grown.1, fun isOver => grown.2 isOver ▸ inStep⟩
  · -- the reading has come to its end before, and so has the walk
    have isOver := inStep.isOver.mpr fun isUnfinished => isMore (isLong isUnfinished)
    have sameWalk := (@Walk.run_mono oracle pieces .start _ _ (Nat.le_of_not_le isMore)).2 isOver
    rw [sameWalk]
    exact ⟨inStep.met_eq ▸ List.prefix_rfl, fun _ => inStep⟩

end Control

end Decaf

import PswapSolver.StackMachine

/-! # The surplus script

The solver takes the surplus of a settlement with a transaction script.  The model has both
sides of it: `prepare`, which encodes the assets for the advice map, and the script itself,
`consume_asset.masm`, as a program of the stack machine.

The script reads the number of assets and stores the words of all assets in memory, one after
the other; then it goes over the memory and calls `receive_asset` once for each.  Both loops
count down to zero.  The pointers and counters are field elements, but as long as the memory
suffices they are the numbers they stand for.
-/
namespace PswapSolver
namespace ConsumeScript
open StackMachine

/-! ## The encoder -/

/-- The order of the field. -/
def fieldOrder : ℕ := 2 ^ 64 - 2 ^ 32 + 1

abbrev Felt := ZMod fieldOrder

/-- An asset as the protocol encodes it. -/
structure Asset where
  toKeyWord : Word fieldOrder
  toValueWord : Word fieldOrder
deriving DecidableEq

/-- Everything needed to wire the script into a transaction. -/
structure ConsumeAssetData where
  commitmentArg : Word fieldOrder
  adviceMapEntry : Word fieldOrder × List Felt
deriving DecidableEq

/-- The elements of an asset. -/
def Asset.felts (asset : Asset) : List Felt :=
  asset.toKeyWord.elements ++ asset.toValueWord.elements

/-- Prepares the commitment and the advice map entry.  An empty list is refused by an assertion,
and so would be a number of assets that is not a field element. -/
def prepare (hashElements : List Felt → Word fieldOrder) (assets : List Asset) :
    Option ConsumeAssetData :=
  if assets.isEmpty then none
  else if fieldOrder ≤ assets.length then none
  else
    let adviceFelts := (assets.length : Felt) :: assets.flatMap Asset.felts
    let commitmentKey := hashElements adviceFelts
    some ⟨commitmentKey.reverse, (commitmentKey, adviceFelts)⟩

/-! ## The script -/

/-- The procedures the script uses. -/
inductive Proc where
  | assetLoad
  | receiveAsset
  | truncateStack
deriving DecidableEq

abbrev Script := Code fieldOrder Proc

/-- Where the assets are stored. -/
def assetMemPtr : ℕ := 500

/-- Loads a word from the advice stack into memory and advances the pointer. -/
def storeWord : List (Instr fieldOrder Proc) :=
  [.padw, .advLoadw, .dup 4, .memStorewLe, .dropw, .add 4]

/-- Decrements the counter below the pointer and tests it. -/
def countDown : List (Instr fieldOrder Proc) := [.swap, .sub 1, .swap, .dup 1, .neqImm 0]

/-- Loads an asset from memory, receives it, and advances the pointer. -/
def receiveOne : List (Instr fieldOrder Proc) :=
  [.dup 0, .exec .assetLoad, .padw, .padw, .swapdw, .call .receiveAsset] ++
    ([.dropw, .dropw, .dropw, .dropw] ++ [.add 8])

/-- Restores the key, pushes its entry on the advice stack and reads the number of assets. -/
def readCount : List (Instr fieldOrder Proc) :=
  [.swap, .movup 2, .movup 3, .advPushMapval, .advPush, .dup 0, .push 0, .neq, .assert,
    .movdn 4, .dropw, .dup 0, .push assetMemPtr, .dup 1, .neqImm 0]

/-- Sets the pointer back to the first asset. -/
def rewind : List (Instr fieldOrder Proc) :=
  [.drop, .drop, .push assetMemPtr, .dup 1, .neqImm 0]

/-- Up to the end of the first loop: all assets are in memory. -/
def loadPhase : Script :=
  .seq (.block readCount) (.whileTrue (.block (storeWord ++ (storeWord ++ countDown))))

/-- Up to the end of the second loop: all assets are received. -/
def receivePhase : Script :=
  .seq (.block rewind) (.whileTrue (.block (receiveOne ++ countDown)))

def consumeAsset : Script :=
  .seq loadPhase (.seq receivePhase (.block [.drop, .drop, .exec .truncateStack]))

/-! ## Field elements that are numbers -/

theorem one_lt_fieldOrder : 1 < fieldOrder := by decide

instance : Fact (1 < fieldOrder) := ⟨one_lt_fieldOrder⟩

theorem val_natCast {n : ℕ} (h : n < 2 ^ 32) : (n : Felt).val = n := by
  refine ZMod.val_natCast_of_lt ?_
  unfold fieldOrder
  omega

/-- The flag of a loop with `n` items left. -/
def flag (n : ℕ) : Felt := if (n : Felt) = 0 then 0 else 1

theorem flag_zero : flag 0 = 0 := by
  rw [flag, Nat.cast_zero, if_pos rfl]

theorem flag_succ {n : ℕ} (h : n + 1 < 2 ^ 32) : flag (n + 1) = 1 := by
  refine if_neg fun hzero => ?_
  have hval := val_natCast h
  rw [hzero, ZMod.val_zero] at hval
  omega

/-! ## Straight lines -/

section Lines
variable {env : Env fieldOrder Proc} {m : State fieldOrder Proc} {s : List Felt}

/-- **One word is moved from the advice stack to memory.** -/
theorem steps_storeWord {ptr : ℕ} {w : Word fieldOrder} {advice : List Felt} (hs : 15 ≤ s.length)
    (hptr : ptr < 2 ^ 32) (halign : ptr % 4 = 0) (hstack : m.stack = (ptr : Felt) :: s)
    (hadvice : m.advice = w.elements ++ advice) :
    steps env storeWord m = some { m with
      stack := ((ptr + 4 : ℕ) : Felt) :: s
      memory := writeWord m.memory ptr w
      advice := advice
      read := m.read ++ w.elements } := by
  obtain ⟨stack, memory, advice', map, read, calls⟩ := m
  obtain rfl : stack = (ptr : Felt) :: s := hstack
  obtain rfl : advice' = w.elements ++ advice := hadvice
  have hword : settle (w.e0 :: w.e1 :: w.e2 :: w.e3 :: (ptr : Felt) :: s) =
      w.e0 :: w.e1 :: w.e2 :: w.e3 :: (ptr : Felt) :: s :=
    settle_of_le (by simp only [List.length_cons]; omega)
  simp only [storeWord, steps, step, Word.elements, List.cons_append, List.nil_append,
    List.getElem?_cons_succ, List.getElem?_cons_zero, Option.map_some, Option.bind_some,
    val_natCast hptr, if_pos (And.intro hptr halign), hword, settle_cons hs, Nat.cast_add,
    Nat.cast_ofNat]

/-- **The counter goes down by one**, and the flag says whether it is zero. -/
theorem steps_countDown {n : ℕ} {ptr : Felt} (hstack : m.stack = ptr :: ((n + 1 : ℕ) : Felt) :: s) :
    steps env countDown m = some { m with stack := flag n :: ptr :: (n : Felt) :: s } := by
  obtain ⟨stack, memory, advice, map, read, calls⟩ := m
  obtain rfl : stack = ptr :: ((n + 1 : ℕ) : Felt) :: s := hstack
  have hcount : ((n + 1 : ℕ) : Felt) - 1 = n := by
    rw [Nat.cast_add, Nat.cast_one, add_sub_cancel_right]
  simp only [countDown, steps, step, List.getElem?_cons_succ, List.getElem?_cons_zero,
    Option.map_some, Option.bind_some, hcount, flag]

/-- What the script assumes of the inline procedures: `asset::load` returns the two words stored
at the pointer and one word behind it, and `truncate_stack` leaves 16 elements. -/
structure Standard (env : Env fieldOrder Proc) : Prop where
  load : ∀ (ptr : Felt) (s : List Felt) (memory : ℕ → Felt), ptr.val + 8 ≤ 2 ^ 32 →
    ptr.val % 4 = 0 → env.exec .assetLoad (ptr :: s) memory =
      some ((readWord memory ptr.val).elements ++ ((readWord memory (ptr.val + 4)).elements ++ s))
  truncate : ∀ (s : List Felt) (memory : ℕ → Felt),
    env.exec .truncateStack s memory = some (s.take 16)

/-- The call that receives an asset. -/
def receiveCall (asset : Asset) : Proc × List Felt :=
  (.receiveAsset, asset.felts ++ List.replicate 8 0)

/-- **One asset is received from memory.** -/
theorem steps_receiveOne (henv : Standard env) {ptr : ℕ} {asset : Asset} (hs : 15 ≤ s.length)
    (hptr : ptr + 8 ≤ 2 ^ 32) (halign : ptr % 4 = 0) (hstack : m.stack = (ptr : Felt) :: s)
    (hkey : readWord m.memory ptr = asset.toKeyWord)
    (hvalue : readWord m.memory (ptr + 4) = asset.toValueWord) :
    steps env receiveOne m = some { m with
      stack := ((ptr + 8 : ℕ) : Felt) :: s
      calls := m.calls ++ [receiveCall asset] } := by
  obtain ⟨stack, memory, advice, map, read, calls⟩ := m
  obtain rfl : stack = (ptr : Felt) :: s := hstack
  have hval := val_natCast (n := ptr) (by omega)
  have hload := henv.load ptr ((ptr : Felt) :: s) memory (by rw [hval]; exact hptr)
    (by rw [hval]; exact halign)
  rw [hval] at hload
  rw [hkey, hvalue] at hload
  -- the call gets the two words and eight zeros
  have hcall : steps env
      [.dup 0, .exec .assetLoad, .padw, .padw, .swapdw, .call .receiveAsset]
      ⟨(ptr : Felt) :: s, memory, advice, map, read, calls⟩ =
      some ⟨env.call .receiveAsset calls (receiveCall asset).2 ++ ((ptr : Felt) :: s), memory,
        advice, map, read, calls ++ [receiveCall asset]⟩ := by
    have hdepth : settle (asset.toKeyWord.elements ++
        (asset.toValueWord.elements ++ (ptr : Felt) :: s)) =
        asset.toKeyWord.elements ++ (asset.toValueWord.elements ++ (ptr : Felt) :: s) := by
      apply settle_of_le
      simp only [List.length_append, Word.length_elements, List.length_cons]
      omega
    simp only [steps, step, List.getElem?_cons_zero, Option.map_some, Option.bind_some, hload,
      hdepth]
    rfl
  rw [receiveOne, steps_append_of_some hcall, steps_append_of_some
    (steps_dropFrame rfl (env.call_length ..) (by rw [List.length_cons]; omega))]
  simp only [steps, step, Option.bind_some, Nat.cast_add, Nat.cast_ofNat]

end Lines

/-! ## The loops -/

/-- The address of an asset. -/
def slot (i : ℕ) : ℕ := assetMemPtr + 8 * i

theorem slot_zero : slot 0 = assetMemPtr := rfl

theorem slot_succ (i : ℕ) : slot (i + 1) = slot i + 8 := by
  rw [slot, slot, Nat.mul_add, Nat.mul_one, Nat.add_assoc]

theorem slot_aligned (i : ℕ) : slot i % 4 = 0 := by
  unfold slot assetMemPtr
  omega

/-- Different assets are apart. -/
theorem slot_add_le {i j : ℕ} (h : i < j) : slot i + 8 ≤ slot j := by
  unfold slot
  omega

/-- The assets are in memory, one after the other. -/
def Holds (memory : ℕ → Felt) (assets : List Asset) : Prop :=
  ∀ i asset, assets[i]? = some asset →
    readWord memory (slot i) = asset.toKeyWord ∧ readWord memory (slot i + 4) = asset.toValueWord

/-- Storing one more asset behind the others. -/
theorem Holds.append {memory : ℕ → Felt} {done : List Asset} (h : Holds memory done)
    (asset : Asset) : Holds (writeWord (writeWord memory (slot done.length) asset.toKeyWord)
      (slot done.length + 4) asset.toValueWord) (done ++ [asset]) := by
  intro i a hi
  rcases Nat.lt_trichotomy i done.length with hlt | rfl | hgt
  · rw [List.getElem?_append_left hlt] at hi
    obtain ⟨hkey, hvalue⟩ := h i a hi
    have hapart := slot_add_le hlt
    rw [readWord_of_outside (by omega), readWord_of_outside (by omega),
      readWord_of_outside (by omega), readWord_of_outside (by omega)]
    exact ⟨hkey, hvalue⟩
  · rw [List.getElem?_concat_length] at hi
    obtain rfl := Option.some.inj hi
    rw [readWord_of_outside (by omega), readWord_writeWord, readWord_writeWord]
    exact ⟨rfl, rfl⟩
  · rw [List.getElem?_eq_none (by rw [List.length_append, List.length_singleton]; omega)] at hi
    cases hi

section Loops
variable {m₀ m : State fieldOrder Proc} {s : List Felt}
  {assets done todo : List Asset} {asset : Asset}

/-- With an asset left, its slot is within the memory and the flag is one. -/
theorem slot_of_left (hshort : slot assets.length < 2 ^ 32) (h : done ++ asset :: todo = assets) :
    slot done.length + 8 < 2 ^ 32 ∧ flag (todo.length + 1) = 1 := by
  have hlength : assets.length = done.length + (todo.length + 1) := by
    rw [← h, List.length_append, List.length_cons]
  constructor
  · have hapart := slot_add_le (show done.length < assets.length by omega)
    omega
  · unfold slot at hshort
    exact flag_succ (by omega)

/-- **The first loop**: what is done is in memory, what is to do is on the advice stack. -/
structure Loading (m₀ : State fieldOrder Proc) (s : List Felt) (assets done todo : List Asset)
    (m : State fieldOrder Proc) : Prop where
  all : done ++ todo = assets
  stack : m.stack = flag todo.length :: (slot done.length : Felt) :: (todo.length : Felt) ::
    (assets.length : Felt) :: s
  memory : Holds m.memory done
  advice : m.advice = todo.flatMap Asset.felts ++ m₀.advice
  read : m.read = m₀.read ++ (assets.length : Felt) :: done.flatMap Asset.felts
  calls : m.calls = m₀.calls

/-- One round of the first loop. -/
theorem Loading.next (env : Env fieldOrder Proc) (hs : 15 ≤ s.length)
    (hshort : slot assets.length < 2 ^ 32) (h : Loading m₀ s assets done (asset :: todo) m) :
    ∃ s' m', m.stack = 1 :: s' ∧
      Runs env (.block (storeWord ++ (storeWord ++ countDown))) { m with stack := settle s' } m' ∧
      Loading m₀ s assets (done ++ [asset]) todo m' := by
  obtain ⟨hslot, hflag⟩ := slot_of_left hshort h.all
  have hstack := h.stack
  rw [List.length_cons, hflag] at hstack
  have hadvice := h.advice
  rw [List.flatMap_cons, Asset.felts, List.append_assoc, List.append_assoc] at hadvice
  have hrest : 15 ≤ (((todo.length + 1 : ℕ) : Felt) :: (assets.length : Felt) :: s).length := by
    simp only [List.length_cons]
    omega
  have haligned := slot_aligned done.length
  let stored : State fieldOrder Proc := { m with
    stack := flag todo.length :: ((slot done.length + 4 + 4 : ℕ) : Felt) ::
      (todo.length : Felt) :: (assets.length : Felt) :: s
    memory := writeWord (writeWord m.memory (slot done.length) asset.toKeyWord)
      (slot done.length + 4) asset.toValueWord
    advice := todo.flatMap Asset.felts ++ m₀.advice
    read := m.read ++ asset.toKeyWord.elements ++ asset.toValueWord.elements }
  refine ⟨_, stored, hstack, .block ?_, ?_⟩
  · rw [settle_cons hrest,
      steps_append_of_some (steps_storeWord (m := { m with stack := _ }) hrest (by omega)
        haligned rfl hadvice),
      steps_append_of_some (steps_storeWord (m := ⟨_, _, _, _, _, _⟩) hrest (by omega)
        (by omega) rfl rfl),
      steps_countDown rfl]
  · refine ⟨?_, ?_, h.memory.append asset, rfl, ?_, h.calls⟩
    · rw [List.append_assoc, List.singleton_append, h.all]
    · rw [List.length_append, List.length_singleton, slot_succ]
    · change m.read ++ asset.toKeyWord.elements ++ asset.toValueWord.elements = _
      rw [h.read, List.flatMap_append, List.flatMap_singleton, Asset.felts]
      simp only [List.append_assoc, List.cons_append]

/-- **The second loop**: what is done has been received, what is to do is in memory. -/
structure Receiving (m₀ : State fieldOrder Proc) (s : List Felt) (assets done todo : List Asset)
    (m : State fieldOrder Proc) : Prop where
  all : done ++ todo = assets
  stack : m.stack = flag todo.length :: (slot done.length : Felt) :: (todo.length : Felt) :: s
  memory : Holds m.memory assets
  advice : m.advice = m₀.advice
  read : m.read = m₀.read
  calls : m.calls = m₀.calls ++ done.map receiveCall

/-- One round of the second loop. -/
theorem Receiving.next {env : Env fieldOrder Proc} (henv : Standard env) (hs : 15 ≤ s.length)
    (hshort : slot assets.length < 2 ^ 32) (h : Receiving m₀ s assets done (asset :: todo) m) :
    ∃ s' m', m.stack = 1 :: s' ∧
      Runs env (.block (receiveOne ++ countDown)) { m with stack := settle s' } m' ∧
      Receiving m₀ s assets (done ++ [asset]) todo m' := by
  obtain ⟨hslot, hflag⟩ := slot_of_left hshort h.all
  have hstack := h.stack
  rw [List.length_cons, hflag] at hstack
  have hasset : assets[done.length]? = some asset := by
    rw [← h.all, List.getElem?_append_right (Nat.le_refl _), Nat.sub_self]
    rfl
  obtain ⟨hkey, hvalue⟩ := h.memory _ _ hasset
  have hrest : 15 ≤ (((todo.length + 1 : ℕ) : Felt) :: s).length := by
    simp only [List.length_cons]
    omega
  let received : State fieldOrder Proc := { m with
    stack := flag todo.length :: ((slot done.length + 8 : ℕ) : Felt) :: (todo.length : Felt) :: s
    calls := m.calls ++ [receiveCall asset] }
  refine ⟨_, received, hstack, .block ?_, ?_⟩
  · rw [settle_cons hrest,
      steps_append_of_some (steps_receiveOne (m := { m with stack := _ }) henv hrest (by omega)
        (slot_aligned _) rfl hkey hvalue),
      steps_countDown rfl]
  · refine ⟨?_, ?_, h.memory, h.advice, h.read, ?_⟩
    · rw [List.append_assoc, List.singleton_append, h.all]
    · rw [List.length_append, List.length_singleton, slot_succ]
    · change m.calls ++ [receiveCall asset] = _
      rw [h.calls, List.map_append, List.map_singleton, List.append_assoc]

end Loops

/-! ## The phases -/

section Phases
variable (env : Env fieldOrder Proc) {m : State fieldOrder Proc} {pad s : List Felt}
  {assets : List Asset} {key : Word fieldOrder}

/-- **The first loop starts** with nothing done. -/
theorem Loading.start (hone : flag assets.length = 1)
    (hstack : m.stack = key.reverse.elements ++ pad) (hpad : 12 ≤ pad.length)
    (hentry : m.adviceMap key = some ((assets.length : Felt) :: assets.flatMap Asset.felts)) :
    ∃ s m', 15 ≤ s.length ∧ steps env readCount m = some m' ∧ Loading m s assets [] assets m' := by
  obtain ⟨stack, memory, advice, map, read, calls⟩ := m
  obtain rfl : stack = key.reverse.elements ++ pad := hstack
  have hne : (assets.length : Felt) ≠ 0 := by
    intro hzero
    rw [flag, if_pos hzero] at hone
    exact zero_ne_one hone
  have hflag : settle (1 :: (assets.length : Felt) :: key.e0 :: key.e1 :: key.e2 :: key.e3 :: pad) =
      1 :: (assets.length : Felt) :: key.e0 :: key.e1 :: key.e2 :: key.e3 :: pad :=
    settle_of_le (by simp only [List.length_cons]; omega)
  have hkey : settle ((assets.length : Felt) :: key.e0 :: key.e1 :: key.e2 :: key.e3 :: pad) =
      (assets.length : Felt) :: key.e0 :: key.e1 :: key.e2 :: key.e3 :: pad :=
    settle_of_le (by simp only [List.length_cons]; omega)
  -- without the key the stack may have to be filled up
  have hfill : settle ((assets.length : Felt) :: pad) =
      (assets.length : Felt) :: (pad ++ List.replicate (16 - (pad.length + 1)) 0) := rfl
  have hmap : map ⟨key.e0, key.e1, key.e2, key.e3⟩ = _ := hentry
  refine ⟨pad ++ List.replicate (16 - (pad.length + 1)) 0, ⟨_, memory, _, map, _, calls⟩, ?_, ?_,
    ⟨rfl, rfl, ?_, rfl, rfl, rfl⟩⟩
  · rw [List.length_append, List.length_replicate]
    omega
  · simp only [readCount, steps, step, Word.elements, Word.reverse, List.cons_append,
      List.nil_append, List.getElem?_cons_succ, List.getElem?_cons_zero, List.eraseIdx_cons_succ,
      List.eraseIdx_cons_zero, List.insertIdx_succ_cons, List.insertIdx_zero, Option.map_some,
      Option.bind_some, hmap, if_neg hne, if_true, hflag, hkey, hfill, hone, List.length_nil,
      slot_zero, List.flatMap_nil]
  · intro i asset hi
    rw [List.getElem?_nil] at hi
    cases hi

/-- **The first phase**: all assets are in memory, and the counter is zero. -/
theorem runs_loadPhase (hone : flag assets.length = 1) (hshort : slot assets.length < 2 ^ 32)
    (hstack : m.stack = key.reverse.elements ++ pad) (hpad : 12 ≤ pad.length)
    (hentry : m.adviceMap key = some ((assets.length : Felt) :: assets.flatMap Asset.felts)) :
    ∃ s m', 15 ≤ s.length ∧ Loading m s assets assets [] m' ∧ Runs env loadPhase m { m' with
      stack := (slot assets.length : Felt) :: 0 :: (assets.length : Felt) :: s } := by
  obtain ⟨s, m', hs, hcount, hstart⟩ := Loading.start env hone hstack hpad hentry
  obtain ⟨loaded, hend, hloop⟩ := Runs.forEach (fun h => h.next env hs hshort)
    (fun h => ⟨_, h.stack.trans (by rw [List.length_nil, flag_zero])⟩) hstart
  rw [hend.stack, List.tail_cons, List.length_nil, Nat.cast_zero, List.nil_append,
    settle_of_le (by simp only [List.length_cons]; omega)] at hloop
  exact ⟨s, loaded, hs, hend, .seq (.block hcount) hloop⟩

/-- **The second loop starts** with nothing received. -/
theorem Receiving.start {ptr : Felt} (hs : 15 ≤ s.length)
    (hstack : m.stack = ptr :: 0 :: (assets.length : Felt) :: s) (hmemory : Holds m.memory assets) :
    ∃ m', steps env rewind m = some m' ∧ Receiving m s assets [] assets m' := by
  obtain ⟨stack, memory, advice, map, read, calls⟩ := m
  obtain rfl : stack = ptr :: 0 :: (assets.length : Felt) :: s := hstack
  have hlong : settle (0 :: (assets.length : Felt) :: s) = 0 :: (assets.length : Felt) :: s :=
    settle_of_le (by simp only [List.length_cons]; omega)
  refine ⟨⟨_, memory, advice, map, read, calls⟩, ?_, ⟨rfl, rfl, hmemory, rfl, rfl, ?_⟩⟩
  · simp only [rewind, steps, step, hlong, settle_cons hs, flag, List.getElem?_cons_succ,
      List.getElem?_cons_zero, Option.map_some, Option.bind_some, List.length_nil, slot_zero]
  · rw [List.map_nil, List.append_nil]

/-- **The second phase**: all assets are received, in order, and the counter is zero. -/
theorem runs_receivePhase {env : Env fieldOrder Proc} (henv : Standard env) {ptr : Felt}
    (hs : 15 ≤ s.length) (hshort : slot assets.length < 2 ^ 32)
    (hstack : m.stack = ptr :: 0 :: (assets.length : Felt) :: s)
    (hmemory : Holds m.memory assets) :
    ∃ m', Receiving m s assets assets [] m' ∧ Runs env receivePhase m { m' with
      stack := (slot assets.length : Felt) :: 0 :: s } := by
  obtain ⟨m', hrewind, hstart⟩ := Receiving.start env hs hstack hmemory
  obtain ⟨received, hend, hloop⟩ := Runs.forEach (fun h => h.next henv hs hshort)
    (fun h => ⟨_, h.stack.trans (by rw [List.length_nil, flag_zero])⟩) hstart
  rw [hend.stack, List.tail_cons, List.length_nil, Nat.cast_zero, List.nil_append,
    settle_of_le (by simp only [List.length_cons]; omega)] at hloop
  exact ⟨received, hend, .seq (.block hrewind) hloop⟩

/-- The end of the script only shortens the stack. -/
theorem steps_cleanUp {env : Env fieldOrder Proc} (henv : Standard env) {ptr count : Felt}
    (hs : 15 ≤ s.length) (hstack : m.stack = ptr :: count :: s) :
    ∃ s', steps env [.drop, .drop, .exec .truncateStack] m = some { m with stack := s' } := by
  obtain ⟨stack, memory, advice, map, read, calls⟩ := m
  obtain rfl : stack = ptr :: count :: s := hstack
  refine ⟨settle ((settle s).take 16), ?_⟩
  simp only [steps, step, settle_cons hs, henv.truncate, Option.map_some, Option.bind_some]

end Phases

/-! ## Encoder and decoder -/

/-- The state in which the script starts: its argument is on the stack, and the advice map has
the entry. -/
structure Starts (data : ConsumeAssetData) (m : State fieldOrder Proc) : Prop where
  argument : ∃ pad : List Felt, 12 ≤ pad.length ∧ m.stack = data.commitmentArg.elements ++ pad
  entry : m.adviceMap data.adviceMapEntry.1 = some data.adviceMapEntry.2

theorem length_flatMap_felts (assets : List Asset) :
    (assets.flatMap Asset.felts).length = 8 * assets.length := by
  induction assets with
  | nil => rfl
  | cons asset assets ih =>
    rw [List.flatMap_cons, List.length_append, ih, List.length_cons, Asset.felts,
      List.length_append, Word.length_elements, Word.length_elements]
    omega

theorem prepare_eq_some (hashElements : List Felt → Word fieldOrder) {assets : List Asset}
    (hassets : assets ≠ []) (hshort : assetMemPtr + 8 * assets.length < 2 ^ 32) :
    prepare hashElements assets = some
      ⟨(hashElements ((assets.length : Felt) :: assets.flatMap Asset.felts)).reverse,
        (hashElements ((assets.length : Felt) :: assets.flatMap Asset.felts),
          (assets.length : Felt) :: assets.flatMap Asset.felts)⟩ := by
  unfold prepare
  rw [if_neg (by simpa using hassets), if_neg (by unfold fieldOrder; omega)]

/-- **The script decodes what `prepare` encodes.**  For every non-empty list of assets whose
memory has valid addresses, and whatever the hash: the script ends, both counters are then zero,
and it has received every asset once, in order, with the asset's words and eight zeros as the
frame.  It has read the whole entry of the advice map, and nothing else. -/
theorem consume_asset_receives_prepared (hashElements : List Felt → Word fieldOrder)
    (assets : List Asset) (hassets : assets ≠ [])
    (hshort : assetMemPtr + 8 * assets.length < 2 ^ 32) :
    ∃ data, prepare hashElements assets = some data ∧
      data.adviceMapEntry.2.length = 1 + 8 * assets.length ∧
      ∀ (env : Env fieldOrder Proc) (m : State fieldOrder Proc), Standard env → Starts data m →
        ∃ loaded received final,
          Runs env loadPhase m loaded ∧ loaded.stack[1]? = some 0 ∧
          Runs env receivePhase loaded received ∧ received.stack[1]? = some 0 ∧
          Runs env consumeAsset m final ∧ (∀ m', Runs env consumeAsset m m' → m' = final) ∧
          final.calls = m.calls ++ assets.map receiveCall ∧
          final.read = m.read ++ data.adviceMapEntry.2 ∧ final.advice = m.advice := by
  refine ⟨_, prepare_eq_some hashElements hassets hshort, ?_, ?_⟩
  · rw [List.length_cons, length_flatMap_felts, Nat.add_comm]
  intro env m henv hstarts
  obtain ⟨pad, hpad, hstack⟩ := hstarts.argument
  have hone : flag assets.length = 1 := by
    have hpos := List.length_pos_of_ne_nil hassets
    rw [← Nat.sub_add_cancel hpos]
    exact flag_succ (by omega)
  obtain ⟨s, loaded, hs, hloaded, hload⟩ := runs_loadPhase env hone hshort hstack hpad hstarts.entry
  obtain ⟨received, hreceived, hreceive⟩ :=
    runs_receivePhase (m := { loaded with stack := _ }) henv hs hshort rfl hloaded.memory
  obtain ⟨s', hclean⟩ := steps_cleanUp (m := { received with stack := _ }) henv hs rfl
  have hrun := hload.seq (hreceive.seq (.block hclean))
  refine ⟨_, _, _, hload, rfl, hreceive, rfl, hrun, fun m' h => h.unique hrun, ?_, ?_, ?_⟩
  · exact hreceived.calls.trans (congrArg (· ++ assets.map receiveCall) hloaded.calls)
  · exact hreceived.read.trans hloaded.read
  · exact hreceived.advice.trans (hloaded.advice.trans (List.nil_append _))

/-- Procedures that do no more than the script needs: a call returns zeros. -/
def plainEnv : Env fieldOrder Proc where
  exec
    | .assetLoad, ptr :: s, memory =>
      some ((readWord memory ptr.val).elements ++ ((readWord memory (ptr.val + 4)).elements ++ s))
    | .truncateStack, s, _ => some (s.take 16)
    | _, _, _ => none
  call _ _ _ := List.replicate 16 0
  call_length _ _ _ := List.length_replicate

theorem plainEnv_standard : Standard plainEnv := ⟨fun _ _ _ _ _ => rfl, fun _ _ => rfl⟩

def firstAsset : Asset := ⟨⟨1, 2, 3, 4⟩, ⟨5, 6, 7, 8⟩⟩

def secondAsset : Asset := ⟨⟨11, 12, 13, 14⟩, ⟨15, 16, 17, 18⟩⟩

/-- The state in which the script starts for the two assets, with all-zero hashes. -/
def twoAssetsState : State fieldOrder Proc where
  stack := List.replicate 16 0
  memory _ := 0
  advice := []
  adviceMap _ := some (2 :: [firstAsset, secondAsset].flatMap Asset.felts)
  read := []
  calls := []

/-- Two assets are received one after the other. -/
theorem consume_asset_receives_two : ∃ final, Runs plainEnv consumeAsset twoAssetsState final ∧
    final.calls = [
      (.receiveAsset, [1, 2, 3, 4, 5, 6, 7, 8, 0, 0, 0, 0, 0, 0, 0, 0]),
      (.receiveAsset, [11, 12, 13, 14, 15, 16, 17, 18, 0, 0, 0, 0, 0, 0, 0, 0])] ∧
    final.read.length = 17 := by
  obtain ⟨data, hprepare, hlength, hruns⟩ := consume_asset_receives_prepared
    (fun _ => ⟨0, 0, 0, 0⟩) [firstAsset, secondAsset] (by decide) (by decide)
  cases hprepare
  obtain ⟨-, -, final, -, -, -, -, hrun, -, hcalls, hread, -⟩ :=
    hruns plainEnv twoAssetsState plainEnv_standard ⟨⟨List.replicate 12 0, by decide, rfl⟩, rfl⟩
  refine ⟨final, hrun, hcalls, ?_⟩
  rw [hread]
  exact hlength

end ConsumeScript
end PswapSolver

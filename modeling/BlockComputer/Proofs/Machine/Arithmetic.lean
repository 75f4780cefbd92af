import BlockComputer.Proofs.Machine.Row

/-!
The arithmetic rows, and what each is meant to do.

A row reads registers into the workspace, operates there and writes a register back. Its meaning is told
without the workspace, on the registers with the two numbers that dispatching has selected.
-/

namespace BlockComputer

namespace Machine

def workspace : List Variable :=
  [⟨"arith_a"⟩, ⟨"arith_b"⟩, ⟨"reg_src"⟩, ⟨"reg_dst"⟩]

def readDestination : List Stage :=
  readStages .loadGeneral ⟨"arith_dst"⟩ ⟨"arith_a"⟩

def writeDestination : List Stage :=
  writeStages .storeGeneral ⟨"arith_dst"⟩ ⟨"arith_a"⟩

def binaryStages (op : ScoreOp) : List Stage :=
  readDestination ++ (readStages .loadGeneral ⟨"arith_src"⟩ ⟨"arith_b"⟩
    ++ ([.always (.operate ⟨"arith_a"⟩ op (.variable ⟨"arith_b"⟩))] ++ writeDestination))

def unaryStages (op : ScoreOp) (k : Int32) : List Stage :=
  readStages .loadGeneral ⟨"arith_src"⟩ ⟨"arith_a"⟩
    ++ ([.always (.operate ⟨"arith_a"⟩ op (.literal k))]
      ++ writeStages .storeGeneral ⟨"arith_src"⟩ ⟨"arith_a"⟩)

def splitStages : List Stage :=
  readStages .loadGeneral ⟨"arith_src"⟩ ⟨"arith_b"⟩
    ++ ([.always (.operate ⟨"arith_a"⟩ .set (.variable ⟨"arith_b"⟩))]
    ++ ([.always (.operate ⟨"arith_a"⟩ .mod (.literal 512))]
    ++ ([.always (.operate ⟨"arith_b"⟩ .div (.literal 512))]
    ++ (writeDestination ++ writeStages .storeGeneral ⟨"arith_src"⟩ ⟨"arith_b"⟩))))

def returnStages : List Stage :=
  [Deed.memory (.pop ⟨"sp"⟩ ⟨"ip"⟩), Deed.operate ⟨"jumped"⟩ .set (.literal 1)].map
    (.guarded ⟨⟨"arith_src"⟩, .eq, .literal 0, false⟩)

def arithmeticRows : List (String × List Stage) :=
  [("mov", binaryStages .set), ("add", binaryStages .add), ("sub", binaryStages .sub),
    ("mul", binaryStages .mul), ("div", binaryStages .div), ("mod", binaryStages .mod),
    ("min", binaryStages .min), ("max", binaryStages .max), ("split", splitStages),
    ("cmp", readDestination ++ (readStages .loadGeneral ⟨"arith_src"⟩ ⟨"arith_b"⟩
      ++ compareStages ⟨"arith_a"⟩ (.variable ⟨"arith_b"⟩))),
    ("mov_from_scratch", readStages .loadScratch ⟨"arith_src"⟩ ⟨"arith_a"⟩ ++ writeDestination),
    ("mov_to_scratch", readStages .loadGeneral ⟨"arith_src"⟩ ⟨"arith_a"⟩
      ++ writeStages .storeScratch ⟨"arith_dst"⟩ ⟨"arith_a"⟩),
    ("load", readStages .loadGeneral ⟨"arith_src"⟩ ⟨"arith_a"⟩
      ++ ([.always (.memory (.load ⟨"arith_a"⟩ ⟨"arith_b"⟩))]
        ++ writeStages .storeGeneral ⟨"arith_dst"⟩ ⟨"arith_b"⟩)),
    ("store", readDestination ++ (readStages .loadGeneral ⟨"arith_src"⟩ ⟨"arith_b"⟩
      ++ [.always (.memory (.store ⟨"arith_a"⟩ ⟨"arith_b"⟩))])),
    ("ldc", writeStages .storeGeneral ⟨"arith_src"⟩ ⟨"cr"⟩),
    ("inc", unaryStages .add 1), ("dec", unaryStages .sub 1), ("neg", unaryStages .mul (-1)),
    ("clr", [.always (.operate ⟨"arith_a"⟩ .set (.literal 0))]
      ++ writeStages .storeGeneral ⟨"arith_src"⟩ ⟨"arith_a"⟩),
    ("asr12", unaryStages .div 4096), ("asl12", unaryStages .mul 4096), ("reserved", []),
    ("cmp0", readStages .loadGeneral ⟨"arith_src"⟩ ⟨"arith_a"⟩
      ++ compareStages ⟨"arith_a"⟩ (.literal 0)),
    ("push", readStages .loadGeneral ⟨"arith_src"⟩ ⟨"arith_a"⟩
      ++ [.always (.memory (.push ⟨"sp"⟩ ⟨"arith_a"⟩))]),
    ("pop", [.always (.memory (.pop ⟨"sp"⟩ ⟨"arith_a"⟩))]
      ++ writeStages .storeGeneral ⟨"arith_src"⟩ ⟨"arith_a"⟩),
    ("reserved", []), ("reserved", []), ("reserved", []),
    ("ret", returnStages), ("reserved", [])]

section emission

variable {head cloner fetcher : Entity}

theorem emitsStages_binary {op : ScoreOp} (ne : op ≠ .swap) :
    EmitsStages (.standard head cloner fetcher)
      ((Computer.standard head cloner fetcher).binaryOperation .standard op) () (binaryStages op) :=
  (emitsStages_getGeneral _ _).seq <| (emitsStages_getGeneral _ _).seq <|
    (EmitsStages.operate _ ne rfl).seq (emitsStages_setGeneral _ _)

theorem emitsStages_unary {op : ScoreOp} (ne : op ≠ .swap) {k : Int32}
    (small : (Source.literal k).isSmall) :
    EmitsStages (.standard head cloner fetcher)
      ((Computer.standard head cloner fetcher).unaryOperation .standard op k) ()
      (unaryStages op k) :=
  (emitsStages_getGeneral _ _).seq <| (EmitsStages.operate _ ne small).seq (emitsStages_setGeneral _ _)

theorem emitsStages_split :
    EmitsStages (.standard head cloner fetcher)
      ((Computer.standard head cloner fetcher).split .standard) () splitStages :=
  (emitsStages_getGeneral _ _).seq <| (EmitsStages.operate _ (by decide) rfl).seq <|
    (EmitsStages.operate _ (by decide) rfl).seq <| (EmitsStages.operate _ (by decide) rfl).seq <|
    (emitsStages_setGeneral _ _).seq (emitsStages_setGeneral _ _)

theorem emitsStages_ret :
    EmitsStages (.standard head cloner fetcher)
      (do
        let _ ← runIf (.ofComparison ⟨"arith_src"⟩ .eq (.literal 0)) do
          (Computer.standard head cloner fetcher).pop ⟨"ip"⟩
          Variable.setTo ⟨"jumped"⟩ 1) () returnStages := by
  have body : EmitsStages (.standard head cloner fetcher)
      (do
        (Computer.standard head cloner fetcher).pop ⟨"ip"⟩
        Variable.setTo ⟨"jumped"⟩ 1) ()
      ([Deed.memory (.pop ⟨"sp"⟩ ⟨"ip"⟩), Deed.operate ⟨"jumped"⟩ .set (.literal 1)].map .always) :=
    (EmitsStages.memory (.pop ⟨"sp"⟩ ⟨"ip"⟩)).seq (.of_deed (Emits.setTo _ _))
  exact (body.emitBlock ⟨⟨"arith_src"⟩, .eq, .literal 0, false⟩ _).bind
    (f := fun _ => Pure.pure ()) (.pure ())

theorem emitsRows_arithmetic :
    EmitsRows (.standard head cloner fetcher)
      ((Computer.standard head cloner fetcher).binaryRows .standard
        ++ (Computer.standard head cloner fetcher).unaryRows .standard) arithmeticRows :=
  .cons ⟨rfl, emitsStages_binary (by decide)⟩ <| .cons ⟨rfl, emitsStages_binary (by decide)⟩ <|
  .cons ⟨rfl, emitsStages_binary (by decide)⟩ <| .cons ⟨rfl, emitsStages_binary (by decide)⟩ <|
  .cons ⟨rfl, emitsStages_binary (by decide)⟩ <| .cons ⟨rfl, emitsStages_binary (by decide)⟩ <|
  .cons ⟨rfl, emitsStages_binary (by decide)⟩ <| .cons ⟨rfl, emitsStages_binary (by decide)⟩ <|
  .cons ⟨rfl, emitsStages_split⟩ <|
  .cons ⟨rfl, (emitsStages_getGeneral _ _).seq <| (emitsStages_getGeneral _ _).seq <|
    emitsStages_compare _ _⟩ <|
  .cons ⟨rfl, (emitsStages_getScratch _ _).seq (emitsStages_setGeneral _ _)⟩ <|
  .cons ⟨rfl, (emitsStages_getGeneral _ _).seq (emitsStages_setScratch _ _)⟩ <|
  .cons ⟨rfl, (emitsStages_getGeneral _ _).seq <|
    (EmitsStages.memory (.load _ _)).seq (emitsStages_setGeneral _ _)⟩ <|
  .cons ⟨rfl, (emitsStages_getGeneral _ _).seq <| (emitsStages_getGeneral _ _).seq <|
    EmitsStages.memory (.store _ _)⟩ <|
  .cons ⟨rfl, emitsStages_setGeneral _ _⟩ <|
  .cons ⟨rfl, emitsStages_unary (by decide) rfl⟩ <| .cons ⟨rfl, emitsStages_unary (by decide) rfl⟩ <|
  .cons ⟨rfl, emitsStages_unary (by decide) rfl⟩ <|
  .cons ⟨rfl, (EmitsStages.of_deed (d := .operate _ .set (.literal 0)) (Emits.setTo _ 0)).seq
    (emitsStages_setGeneral _ _)⟩ <|
  .cons ⟨rfl, emitsStages_unary (by decide) rfl⟩ <| .cons ⟨rfl, emitsStages_unary (by decide) rfl⟩ <|
  .cons ⟨rfl, .pure ()⟩ <|
  .cons ⟨rfl, (emitsStages_getGeneral _ _).seq (emitsStages_compare _ _)⟩ <|
  .cons ⟨rfl, (emitsStages_getGeneral _ _).seq (EmitsStages.memory (.push _ _))⟩ <|
  .cons ⟨rfl, (EmitsStages.memory (.pop _ _)).seq (emitsStages_setGeneral _ _)⟩ <|
  .cons ⟨rfl, .pure ()⟩ <| .cons ⟨rfl, .pure ()⟩ <| .cons ⟨rfl, .pure ()⟩ <|
  .cons ⟨rfl, emitsStages_ret⟩ <| .cons ⟨rfl, .pure ()⟩ .nil

end emission

theorem isSafe_arithmeticRows : ∀ row ∈ arithmeticRows, ∀ stage ∈ row.2, stage.IsSafe := by
  decide

theorem fitIn_arithmeticRows : FitIn 64 arithmeticRows :=
  fitIn_of_size (by decide)

namespace State

variable {s t : State} {index : Variable} {i : Fin 8}

theorem register_notMem_workspace (kind : BankAccess) (i : Fin 8) : kind.register i ∉ workspace := by
  revert i
  cases kind <;> decide

theorem SameBut.reads (same : s.SameBut workspace t) (kind : BankAccess) (target : Variable)
    (number : s.scores index = Int32.ofNat i) (loads : kind.isLoad) (apart : index ∉ workspace)
    (inside : target ∈ workspace) :
    s.SameBut workspace (effects (readStages kind index target) t) ∧
      (effects (readStages kind index target) t).scores target = s.scores (kind.register i) ∧
      ∀ v, v ≠ ⟨"reg_src"⟩ → v ≠ target →
        (effects (readStages kind index target) t).scores v = t.scores v := by
  have read := sameBut_read t kind loads index target
  refine ⟨same.trans (read.mono ?_), ?_, fun v notSource notTarget => read.scores v ?_⟩
  · exact List.cons_subset.2 ⟨by decide, List.cons_subset.2 ⟨inside, List.nil_subset _⟩⟩
  · rw [scores_read loads ((same.scores index apart).trans number),
      same.scores _ (register_notMem_workspace kind i)]
  · simp [notSource, notTarget]

theorem SameBut.writes (same : s.SameBut workspace t) (kind : BankAccess) (source : Variable)
    (number : s.scores index = Int32.ofNat i) (stores : kind.isLoad = false)
    (apart : index ∉ workspace) :
    (s.setScore (kind.register i) (t.scores source)).SameBut workspace
        (effects (writeStages kind index source) t) ∧
      ∀ v, v ≠ ⟨"reg_dst"⟩ → v ≠ kind.register i →
        (effects (writeStages kind index source) t).scores v = t.scores v := by
  have ne : index ≠ ⟨"reg_dst"⟩ := by
    rintro rfl
    exact apart (by decide)
  have wrote := sameBut_write stores ((same.scores index apart).trans number) ne source
  refine ⟨(same.setScore _ _).trans (wrote.mono (by decide)), fun v notHeld notWritten => ?_⟩
  rw [wrote.scores v (by simpa using notHeld), State.scores_setScore_of_ne _ notWritten]

theorem SameBut.setFlags {vs : List Variable} (same : s.SameBut vs t) (a b : Int32) :
    (s.setFlags a b).SameBut vs (t.setFlags a b) :=
  (((((same.setScore _ _).setScore _ _).setScore _ _).setScore _ _).setScore _ _).setScore _ _

def general (s : State) (i : Fin 8) : Int32 :=
  s.scores (generalRegister i)

def setGeneral (s : State) (i : Fin 8) (n : Int32) : State :=
  s.setScore (generalRegister i) n

def scratch (s : State) (i : Fin 8) : Int32 :=
  s.scores (scratchRegister i)

def setScratch (s : State) (i : Fin 8) (n : Int32) : State :=
  s.setScore (scratchRegister i) n

end State

def State.push (s : State) (n : Int32) : State :=
  (s.write (s.scores ⟨"sp"⟩) n).setScore ⟨"sp"⟩ (s.scores ⟨"sp"⟩ - 1)

def State.top (s : State) : Int32 :=
  s.read (s.scores ⟨"sp"⟩ + 1)

def State.drop (s : State) : State :=
  s.setScore ⟨"sp"⟩ (s.scores ⟨"sp"⟩ + 1)

def quotient (a b : Int32) : Int32 :=
  if b = 0 then a else Int32.ofInt (a.toInt.fdiv b.toInt)

def remainder (a b : Int32) : Int32 :=
  if b = 0 then a else Int32.ofInt (a.toInt.fmod b.toInt)

def binaryMeaning (f : Int32 → Int32 → Int32) (d r : Fin 8) (s : State) : State :=
  s.setGeneral d (f (s.general d) (s.general r))

def unaryMeaning (f : Int32 → Int32) (_ r : Fin 8) (s : State) : State :=
  s.setGeneral r (f (s.general r))

def arithmeticMeanings : List (String × (Fin 8 → Fin 8 → State → State)) :=
  [("mov", binaryMeaning fun _ b => b), ("add", binaryMeaning (· + ·)), ("sub", binaryMeaning (· - ·)),
    ("mul", binaryMeaning (· * ·)), ("div", binaryMeaning quotient), ("mod", binaryMeaning remainder),
    ("min", binaryMeaning min), ("max", binaryMeaning max),
    ("split", fun d r s =>
      (s.setGeneral d (remainder (s.general r) 512)).setGeneral r (quotient (s.general r) 512)),
    ("cmp", fun d r s => s.setFlags (s.general d) (s.general r)),
    ("mov_from_scratch", fun d r s => s.setGeneral d (s.scratch r)),
    ("mov_to_scratch", fun d r s => s.setScratch d (s.general r)),
    ("load", fun d r s => s.setGeneral d (s.read (s.general r))),
    ("store", fun d r s => s.write (s.general d) (s.general r)),
    ("ldc", fun _ r s => s.setGeneral r (s.scores ⟨"cr"⟩)),
    ("inc", unaryMeaning (· + 1)), ("dec", unaryMeaning (· - 1)), ("neg", unaryMeaning (- ·)),
    ("clr", unaryMeaning fun _ => 0), ("asr12", unaryMeaning (quotient · 4096)),
    ("asl12", unaryMeaning (· * 4096)), ("reserved", fun _ _ s => s),
    ("cmp0", fun _ r s => s.setFlags (s.general r) 0), ("push", fun _ r s => s.push (s.general r)),
    ("pop", fun _ r s => s.drop.setGeneral r s.top), ("reserved", fun _ _ s => s),
    ("reserved", fun _ _ s => s), ("reserved", fun _ _ s => s),
    ("ret", fun _ r s =>
      if r = 0 then (s.drop.setScore ⟨"ip"⟩ s.top).setScore ⟨"jumped"⟩ 1 else s),
    ("reserved", fun _ _ s => s)]

/-- The stages of a row do what is meant with the registers of these numbers, whatever they leave in the
workspace. -/
def Means (stages : List Stage) (meaning : Fin 8 → Fin 8 → State → State) : Prop :=
  ∀ (s : State) (d r : Fin 8), s.scores ⟨"arith_dst"⟩ = Int32.ofNat d →
    s.scores ⟨"arith_src"⟩ = Int32.ofNat r →
    (meaning d r s).SameBut workspace (effects stages s)

theorem State.sameBut_reads {s : State} {d r : Fin 8} (dst : s.scores ⟨"arith_dst"⟩ = Int32.ofNat d)
    (src : s.scores ⟨"arith_src"⟩ = Int32.ofNat r) :
    let t := effects (readStages .loadGeneral ⟨"arith_src"⟩ ⟨"arith_b"⟩) (effects readDestination s)
    s.SameBut workspace t ∧ t.scores ⟨"arith_a"⟩ = s.general d ∧ t.scores ⟨"arith_b"⟩ = s.general r := by
  intro t
  obtain ⟨same, a, -⟩ := (SameBut.refl workspace s).reads .loadGeneral ⟨"arith_a"⟩ dst rfl
    (by decide) (by decide)
  obtain ⟨same', b, kept⟩ := same.reads .loadGeneral ⟨"arith_b"⟩ src rfl (by decide) (by decide)
  exact ⟨same', (kept ⟨"arith_a"⟩ (by decide) (by decide)).trans a, b⟩

theorem means_binary (op : ScoreOp) : Means (binaryStages op) (binaryMeaning op.apply) := by
  intro s d r dst src
  obtain ⟨same, a, b⟩ := State.sameBut_reads dst src
  have same' := same.setOne (v := ⟨"arith_a"⟩) (by decide) (op.apply (s.general d) (s.general r))
  obtain ⟨wrote, -⟩ := same'.writes .storeGeneral ⟨"arith_a"⟩ dst rfl (by decide)
  rw [State.scores_setScore_self] at wrote
  rw [binaryStages, effects_append, effects_append, effects_append, effects_operate, State.value, a, b]
  exact wrote

theorem means_unary (op : ScoreOp) (k : Int32) :
    Means (unaryStages op k) (unaryMeaning (op.apply · k)) := by
  intro s d r _ src
  obtain ⟨same₁, a₁, -⟩ := (State.SameBut.refl workspace s).reads .loadGeneral ⟨"arith_a"⟩ src rfl
    (by decide) (by decide)
  have same₂ := same₁.setOne (v := ⟨"arith_a"⟩) (by decide) (op.apply (s.general r) k)
  obtain ⟨wrote, -⟩ := same₂.writes .storeGeneral ⟨"arith_a"⟩ src rfl (by decide)
  rw [State.scores_setScore_self] at wrote
  rw [unaryStages, effects_append, effects_append, effects_operate, State.value, a₁]
  exact wrote

/-- The quotient is written last, so it wins where both registers are the same. -/
theorem means_split : Means splitStages fun d r s =>
    (s.setGeneral d (ScoreOp.mod.apply (s.general r) 512)).setGeneral r
      (ScoreOp.div.apply (s.general r) 512) := by
  intro s d r dst src
  let low := ScoreOp.mod.apply (s.general r) 512
  let high := ScoreOp.div.apply (s.general r) 512
  obtain ⟨same₁, b₁, -⟩ := (State.SameBut.refl workspace s).reads .loadGeneral ⟨"arith_b"⟩ src rfl
    (by decide) (by decide)
  rw [splitStages, effects_append]
  generalize effects (readStages .loadGeneral ⟨"arith_src"⟩ ⟨"arith_b"⟩) s = t₁ at same₁ b₁ ⊢
  have same₂ := ((same₁.setOne (v := ⟨"arith_a"⟩) (by decide) (s.general r)).setOne
    (v := ⟨"arith_a"⟩) (by decide) low).setOne (v := ⟨"arith_b"⟩) (by decide) high
  have b₂ : (t₁.setScore ⟨"arith_a"⟩ (s.general r)).scores ⟨"arith_b"⟩ = s.general r :=
    (State.scores_setScore_of_ne _ (by decide) _).trans b₁
  have b₃ : ((t₁.setScore ⟨"arith_a"⟩ (s.general r)).setScore ⟨"arith_a"⟩ low).scores ⟨"arith_b"⟩ =
      s.general r :=
    (State.scores_setScore_of_ne _ (by decide) _).trans b₂
  have copied : effects [.always (.operate ⟨"arith_a"⟩ .set (.variable ⟨"arith_b"⟩))] t₁ =
      t₁.setScore ⟨"arith_a"⟩ (s.general r) := by
    rw [effects_operate, State.value, b₁]
    rfl
  rw [effects_append, copied, effects_append, effects_operate, State.scores_setScore_self,
    State.value, effects_append, effects_operate, b₃, State.value, effects_append]
  have a₂ : (((t₁.setScore ⟨"arith_a"⟩ (s.general r)).setScore ⟨"arith_a"⟩ low).setScore
      ⟨"arith_b"⟩ high).scores ⟨"arith_a"⟩ = low :=
    (State.scores_setScore_of_ne _ (by decide) _).trans (State.scores_setScore_self _ _ _)
  have high₂ : (((t₁.setScore ⟨"arith_a"⟩ (s.general r)).setScore ⟨"arith_a"⟩ low).setScore
      ⟨"arith_b"⟩ high).scores ⟨"arith_b"⟩ = high :=
    State.scores_setScore_self _ _ _
  generalize ((t₁.setScore ⟨"arith_a"⟩ (s.general r)).setScore ⟨"arith_a"⟩ low).setScore
    ⟨"arith_b"⟩ high = t₂ at same₂ a₂ high₂ ⊢
  obtain ⟨wrote, kept⟩ := same₂.writes .storeGeneral ⟨"arith_a"⟩ dst rfl (by decide)
  rw [a₂] at wrote
  have high₃ := (kept ⟨"arith_b"⟩ (by decide) (generalRegister_ne (by decide) d).symm).trans high₂
  -- the first write may go to the source register itself, but not to the score with the register's number
  have src₃ : (s.setGeneral d low).scores ⟨"arith_src"⟩ = Int32.ofNat r :=
    (State.scores_setScore_of_ne _ (generalRegister_ne (by decide) d).symm _).trans src
  obtain ⟨last, -⟩ := State.SameBut.writes (s := s.setGeneral d low) wrote .storeGeneral
    ⟨"arith_b"⟩ src₃ rfl (by decide)
  rw [high₃] at last
  exact last

theorem means_compare : Means (readDestination ++ (readStages .loadGeneral ⟨"arith_src"⟩ ⟨"arith_b"⟩
      ++ compareStages ⟨"arith_a"⟩ (.variable ⟨"arith_b"⟩)))
    fun d r s => s.setFlags (s.general d) (s.general r) := by
  intro s d r dst src
  obtain ⟨same, a, b⟩ := State.sameBut_reads dst src
  rw [effects_append, effects_append, effects_compare (by decide), State.value, a, b]
  exact same.setFlags _ _

theorem means_compareZero :
    Means (readStages .loadGeneral ⟨"arith_src"⟩ ⟨"arith_a"⟩
      ++ compareStages ⟨"arith_a"⟩ (.literal 0)) fun _ r s => s.setFlags (s.general r) 0 := by
  intro s d r _ src
  obtain ⟨same₁, a₁, -⟩ := (State.SameBut.refl workspace s).reads .loadGeneral ⟨"arith_a"⟩ src rfl
    (by decide) (by decide)
  rw [effects_append, effects_compare (by decide), a₁]
  exact same₁.setFlags _ _

theorem sameBut_move (load store : BankAccess) {index index' : Variable} {i j : Fin 8} {s : State}
    (loads : load.isLoad) (stores : store.isLoad = false) (read : s.scores index = Int32.ofNat i)
    (written : s.scores index' = Int32.ofNat j) (apart : index ∉ workspace ∧ index' ∉ workspace) :
    (s.setScore (store.register j) (s.scores (load.register i))).SameBut workspace
      (effects (readStages load index ⟨"arith_a"⟩ ++ writeStages store index' ⟨"arith_a"⟩) s) := by
  obtain ⟨same₁, a₁, -⟩ := (State.SameBut.refl workspace s).reads load ⟨"arith_a"⟩ read loads
    apart.1 (by decide)
  obtain ⟨wrote, -⟩ := same₁.writes store ⟨"arith_a"⟩ written stores apart.2
  rw [a₁] at wrote
  rw [effects_append]
  exact wrote

theorem means_load :
    Means (readStages .loadGeneral ⟨"arith_src"⟩ ⟨"arith_a"⟩
      ++ ([.always (.memory (.load ⟨"arith_a"⟩ ⟨"arith_b"⟩))]
        ++ writeStages .storeGeneral ⟨"arith_dst"⟩ ⟨"arith_b"⟩))
    fun d r s => s.setGeneral d (s.read (s.general r)) := by
  intro s d r dst src
  obtain ⟨same₁, a₁, -⟩ := (State.SameBut.refl workspace s).reads .loadGeneral ⟨"arith_a"⟩ src rfl
    (by decide) (by decide)
  have same₂ := same₁.setOne (v := ⟨"arith_b"⟩) (by decide) (s.read (s.general r))
  obtain ⟨wrote, -⟩ := same₂.writes .storeGeneral ⟨"arith_b"⟩ dst rfl (by decide)
  rw [State.scores_setScore_self] at wrote
  rw [effects_append, effects_append, effects_memory, Memory.Access.effect, a₁, same₁.read]
  exact wrote

theorem means_store :
    Means (readDestination ++ (readStages .loadGeneral ⟨"arith_src"⟩ ⟨"arith_b"⟩
      ++ [.always (.memory (.store ⟨"arith_a"⟩ ⟨"arith_b"⟩))]))
    fun d r s => s.write (s.general d) (s.general r) := by
  intro s d r dst src
  obtain ⟨same, a, b⟩ := State.sameBut_reads dst src
  rw [effects_append, effects_append, effects_memory, Memory.Access.effect, a, b]
  exact same.write _ _

theorem means_constant : Means (writeStages .storeGeneral ⟨"arith_src"⟩ ⟨"cr"⟩)
    fun _ r s => s.setGeneral r (s.scores ⟨"cr"⟩) := by
  intro s d r _ src
  exact ((State.SameBut.refl workspace s).writes .storeGeneral ⟨"cr"⟩ src rfl (by decide)).1

theorem means_clear :
    Means ([.always (.operate ⟨"arith_a"⟩ .set (.literal 0))]
      ++ writeStages .storeGeneral ⟨"arith_src"⟩ ⟨"arith_a"⟩) (unaryMeaning fun _ => 0) := by
  intro s d r _ src
  have same₁ := (State.SameBut.refl workspace s).setOne (v := ⟨"arith_a"⟩) (by decide) 0
  obtain ⟨wrote, -⟩ := same₁.writes .storeGeneral ⟨"arith_a"⟩ src rfl (by decide)
  rw [State.scores_setScore_self] at wrote
  rw [effects_append, effects_operate]
  exact wrote

theorem means_push :
    Means (readStages .loadGeneral ⟨"arith_src"⟩ ⟨"arith_a"⟩
      ++ [.always (.memory (.push ⟨"sp"⟩ ⟨"arith_a"⟩))]) fun _ r s => s.push (s.general r) := by
  intro s d r _ src
  obtain ⟨same₁, a₁, -⟩ := (State.SameBut.refl workspace s).reads .loadGeneral ⟨"arith_a"⟩ src rfl
    (by decide) (by decide)
  have pointer := same₁.scores ⟨"sp"⟩ (by decide)
  rw [effects_append, effects_memory, Memory.Access.effect, a₁, pointer]
  exact (same₁.write _ _).setScore _ _

theorem effect_pop (target : Variable) (s : State) :
    (Memory.Access.pop ⟨"sp"⟩ target).effect s = s.drop.setScore target s.top := by
  rw [Memory.Access.effect, State.scores_setScore_self, State.read_setScore]
  rfl

theorem means_pop :
    Means ([.always (.memory (.pop ⟨"sp"⟩ ⟨"arith_a"⟩))]
      ++ writeStages .storeGeneral ⟨"arith_src"⟩ ⟨"arith_a"⟩)
    fun _ r s => s.drop.setGeneral r s.top := by
  intro s d r _ src
  have same₁ := (State.SameBut.refl workspace s.drop).setOne (v := ⟨"arith_a"⟩) (by decide) s.top
  have src₁ : s.drop.scores ⟨"arith_src"⟩ = Int32.ofNat r :=
    (State.scores_setScore_of_ne _ (by decide) _).trans src
  obtain ⟨wrote, -⟩ := same₁.writes .storeGeneral ⟨"arith_a"⟩ src₁ rfl (by decide)
  rw [State.scores_setScore_self] at wrote
  rw [effects_append, effects_memory, effect_pop]
  exact wrote

theorem effects_ret (s : State) :
    effects returnStages s =
      if s.scores ⟨"arith_src"⟩ = 0 then
        (s.drop.setScore ⟨"ip"⟩ s.top).setScore ⟨"jumped"⟩ 1
      else s := by
  rw [returnStages, effects_guarded (by decide)]
  have holds : Test.holds ⟨⟨"arith_src"⟩, .eq, .literal 0, false⟩ s =
      decide (s.scores ⟨"arith_src"⟩ = 0) := Bool.bne_false _
  have done : effects ([Deed.memory (.pop ⟨"sp"⟩ ⟨"ip"⟩),
      Deed.operate ⟨"jumped"⟩ .set (.literal 1)].map .always) s =
      ((Memory.Access.pop ⟨"sp"⟩ ⟨"ip"⟩).effect s).setScore ⟨"jumped"⟩ 1 := rfl
  rw [holds, done, effect_pop]
  by_cases zero : s.scores ⟨"arith_src"⟩ = 0
  · simp [zero]
  · simp [zero]

theorem means_ret :
    Means returnStages fun _ r s =>
      if r = 0 then (s.drop.setScore ⟨"ip"⟩ s.top).setScore ⟨"jumped"⟩ 1 else s := by
  intro s d r _ src
  have zero : ∀ i : Fin 8, Int32.ofNat i = 0 ↔ i = 0 := by decide
  rw [effects_ret]
  simp only [src, zero]
  exact .refl workspace _

theorem means_nothing : Means [] fun _ _ s => s :=
  fun s _ _ _ _ => .refl workspace s

theorem means_arithmeticRows :
    List.Forall₂ (fun row entry => row.1 = entry.1 ∧ Means row.2 entry.2) arithmeticRows
      arithmeticMeanings := by
  have negated : Means (unaryStages .mul (-1)) (unaryMeaning (- ·)) := by
    have same : (ScoreOp.mul.apply · (-1)) = fun a : Int32 => -a := funext fun a => by
      rw [ScoreOp.apply]
      grind
    rw [← same]
    exact means_unary .mul (-1)
  exact .cons ⟨rfl, means_binary .set⟩ <| .cons ⟨rfl, means_binary .add⟩ <|
    .cons ⟨rfl, means_binary .sub⟩ <| .cons ⟨rfl, means_binary .mul⟩ <|
    .cons ⟨rfl, means_binary .div⟩ <| .cons ⟨rfl, means_binary .mod⟩ <|
    .cons ⟨rfl, means_binary .min⟩ <| .cons ⟨rfl, means_binary .max⟩ <| .cons ⟨rfl, means_split⟩ <|
    .cons ⟨rfl, means_compare⟩ <|
    .cons ⟨rfl, fun _ _ _ dst src =>
      sameBut_move .loadScratch .storeGeneral rfl rfl src dst (by decide)⟩ <|
    .cons ⟨rfl, fun _ _ _ dst src =>
      sameBut_move .loadGeneral .storeScratch rfl rfl src dst (by decide)⟩ <|
    .cons ⟨rfl, means_load⟩ <| .cons ⟨rfl, means_store⟩ <| .cons ⟨rfl, means_constant⟩ <|
    .cons ⟨rfl, means_unary .add 1⟩ <| .cons ⟨rfl, means_unary .sub 1⟩ <| .cons ⟨rfl, negated⟩ <|
    .cons ⟨rfl, means_clear⟩ <| .cons ⟨rfl, means_unary .div 4096⟩ <|
    .cons ⟨rfl, means_unary .mul 4096⟩ <| .cons ⟨rfl, means_nothing⟩ <|
    .cons ⟨rfl, means_compareZero⟩ <| .cons ⟨rfl, means_push⟩ <| .cons ⟨rfl, means_pop⟩ <|
    .cons ⟨rfl, means_nothing⟩ <| .cons ⟨rfl, means_nothing⟩ <| .cons ⟨rfl, means_nothing⟩ <|
    .cons ⟨rfl, means_ret⟩ <| .cons ⟨rfl, means_nothing⟩ .nil

end Machine

end BlockComputer

import MelonSoc.Lib.Rv32Run

set_option autoImplicit false

/-! # The machine of the RV32 instruction set

`Rv32.exec` knows the instructions that work on the registers and one flat memory. Here every
instruction has an effect, given what it learns from outside: where translation puts its access,
what the bytes there read as, whether a reservation is held, what a CSR holds and where a return
leads. A machine executes the instructions of a program one after the other; a trap sets its
program counter and changes nothing else.
-/

namespace Rv32

/-! ## Atomic operations -/

/-- What an atomic operation leaves in memory. -/
def AmoOp.value : AmoOp → Word → Word → Word
  | swap, _, b => b
  | add, a, b => a + b
  | xor, a, b => a ^^^ b
  | and, a, b => a &&& b
  | or, a, b => a ||| b
  | min, a, b => if a.toInt ≤ b.toInt then a else b
  | max, a, b => if b.toInt ≤ a.toInt then a else b
  | minu, a, b => if a.toNat ≤ b.toNat then a else b
  | maxu, a, b => if b.toNat ≤ a.toNat then a else b

/-! ## Effects -/

/-- What an instruction learns from outside the registers: the physical address of its access, the
bytes that a load finds, whether its reservation is held, the CSR it reads and the program counter
a return goes to. -/
structure Answer where
  phys : Word
  seen : Word → Byte
  held : Bool
  csr : Word
  epc : Word

/-- The access at `a` has been translated: the offset in the page is kept. -/
def Answer.maps (x : Answer) (a : Word) : Bool := x.phys.extractLsb' 0 12 == a.extractLsb' 0 12

/-- The state an outcome leads to. -/
def Outcome.state : Outcome → Option State
  | next s => some s
  | trap _ _ => none

/-- The state after an instruction of `len` bytes, `none` if it is an exception. -/
def effect (len : Word) (x : Answer) (i : Instr) (s : State) : Option State :=
  let next := s.pc + len
  match i with
  | .load op rd rs1 offset =>
      let a := s.get rs1 + offset.signExtend 32
      if op.aligned a && x.maps a then
        some { s.set rd (op.value x.seen x.phys) with pc := next }
      else none
  | .store op rs1 rs2 offset =>
      let a := s.get rs1 + offset.signExtend 32
      if op.aligned a && x.maps a then
        some { s with mem := op.write x.phys (s.get rs2) s.mem, pc := next }
      else none
  | .lr rd rs1 _ =>
      let a := s.get rs1
      if LoadOp.lw.aligned a && x.maps a then
        some { s.set rd (LoadOp.lw.value x.seen x.phys) with pc := next }
      else none
  | .sc rd rs1 rs2 _ =>
      let a := s.get rs1
      if LoadOp.lw.aligned a && x.maps a then
        if x.held then
          some { s.set rd 0#32 with
            mem := StoreOp.sw.write x.phys (s.get rs2) s.mem, pc := next }
        else some { s.set rd 1#32 with pc := next }
      else none
  | .amo op rd rs1 rs2 _ =>
      let a := s.get rs1
      let old := LoadOp.lw.value x.seen x.phys
      if LoadOp.lw.aligned a && x.maps a then
        some { s.set rd old with
          mem := StoreOp.sw.write x.phys (op.value old (s.get rs2)) s.mem, pc := next }
      else none
  | .csr _ rd _ _ => some { s.set rd x.csr with pc := next }
  | .csrImm _ rd _ _ => some { s.set rd x.csr with pc := next }
  | .fenceI _ _ _ => some { s with pc := next }
  | .wfi => some { s with pc := next }
  | .sfenceVma _ _ => some { s with pc := next }
  | .mret => some { s with pc := x.epc }
  | .sret => some { s with pc := x.epc }
  | .ecall => none
  | i => (exec len i s).bind Outcome.state

/-- The address of the access of a load or store. -/
def Instr.address (s : State) : Instr → Option Word
  | .load _ _ rs1 offset => some (s.get rs1 + offset.signExtend 32)
  | .store _ rs1 _ offset => some (s.get rs1 + offset.signExtend 32)
  | _ => none

/-- Where `exec` has a next state, that is the effect, if translation is the identity and a load
finds the bytes of the memory. -/
theorem effect_of_exec {len : Word} {i : Instr} {s s' : State} {x : Answer}
    (h : exec len i s = some (.next s')) (hp : ∀ a, i.address s = some a → x.phys = a)
    (hs : x.seen = s.mem) : effect len x i s = some s' := by
  cases i with
  | load op rd rs1 offset =>
      have hphys : x.phys = s.get rs1 + offset.signExtend 32 := hp _ rfl
      by_cases ha : op.aligned (s.get rs1 + offset.signExtend 32) = true
      · simp only [exec, ha, if_true, Option.some.injEq, Outcome.next.injEq] at h
        simp [effect, Answer.maps, hphys, ha, hs, ← h]
      · simp [exec, ha] at h
  | store op rs1 rs2 offset =>
      have hphys : x.phys = s.get rs1 + offset.signExtend 32 := hp _ rfl
      by_cases ha : op.aligned (s.get rs1 + offset.signExtend 32) = true
      · simp only [exec, ha, if_true, Option.some.injEq, Outcome.next.injEq] at h
        simp [effect, Answer.maps, hphys, ha, ← h]
      · simp [exec, ha] at h
  | lr | sc | amo | csr | csrImm | fenceI | wfi | sfenceVma | mret | sret | ecall =>
      simp [exec] at h
  | _ => simp [effect, h, Outcome.state]

/-! ## The machine -/

/-- What happens in a step. -/
inductive Event
  | insn (w : Word) (x : Answer)
  | trap (target : Word)

/-- The word of an executed instruction. -/
def Event.word : Event → Option Word
  | insn w _ => some w
  | trap _ => none

def Event.isTrap : Event → Bool
  | insn _ _ => false
  | trap _ => true

/-- A step of the machine that runs `prog`, which holds the word of the instruction at each address
and its length. `ram` are the addresses at which a load finds what has been stored; elsewhere
there are devices. A word that encodes no instruction may do what an instruction on registers
does. -/
inductive Step (prog : Word → Word → Word → Prop) (ram : Word → Prop) :
    State → Event → State → Prop
  | insn {s s' : State} {w len : Word} {i : Instr} {x : Answer} (fetch : prog s.pc w len)
      (encodes : encode i = w) (memory : ∀ b, ram b → x.seen b = s.mem b)
      (next : effect len x i s = some s') : Step prog ram s (.insn w x) s'
  | reserved {s : State} {w len : Word} (x : Answer) (rd : Reg) (v : Word)
      (fetch : prog s.pc w len) (unknown : ¬ Legal w) :
      Step prog ram s (.insn w x) { s.set rd v with pc := s.pc + len }
  | trap (s : State) (target : Word) : Step prog ram s (.trap target) { s with pc := target }

/-- The machine takes the steps of a list of events, the newest of which comes first. -/
inductive Run (prog : Word → Word → Word → Prop) (ram : Word → Prop) (s : State) :
    List Event → State → Prop
  | start : Run prog ram s [] s
  | step {es : List Event} {e : Event} {s' s'' : State} (run : Run prog ram s es s')
      (next : Step prog ram s' e s'') : Run prog ram s (e :: es) s''

namespace Run

variable {prog : Word → Word → Word → Prop} {ram : Word → Prop} {s s' s'' : State}
  {es es' : List Event}

theorem append (h : Run prog ram s es s') (h' : Run prog ram s' es' s'') :
    Run prog ram s (es' ++ es) s'' := by
  induction h' with
  | start => exact h
  | step _ hn ih => exact ih.step hn

end Run

end Rv32

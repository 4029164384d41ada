import Lord84.Lib.Stdio

/-!
# Printing from interrupt handlers

`interrupt_handler` of `src/hal/idt.c` reports exceptions with `kprintf`, which takes
`printf_lock`.  The model is one CPU: kernel code calls `kprintf`, and between any two steps
an interrupt of any vector may be taken, whose handler then runs before the interrupted code
goes on.  A handler that prints while the interrupted code holds the lock waits forever.
-/

namespace Lord84

open Theory

/-- `interrupt_frame` -/
structure InterruptFrame where
  r15 : Word
  r14 : Word
  r13 : Word
  r12 : Word
  r11 : Word
  r10 : Word
  r9 : Word
  r8 : Word
  rdi : Word
  rsi : Word
  rbp : Word
  rdx : Word
  rcx : Word
  rbx : Word
  rax : Word
  intNo : Word
  err : Word
  rip : Word
  cs : Word
  rflags : Word
  rsp : Word
  ss : Word
  deriving DecidableEq, Repr

/-- A call of `kprintf`. -/
structure PrintCall where
  format : List Byte
  args : Nat → Word

/-- A call with the text and the arguments of the source. -/
def PrintCall.of (format : String) (args : List Word) : PrintCall where
  format := format.toList.map byte
  args k := args.getD k 0

/-- The steps between which interrupts are taken. -/
inductive Action where
  /-- `acquire_lock(&printf_lock)` -/
  | acquire
  /-- An iteration of the loop of `kprintf`. -/
  | print (call : PrintCall) (current : Byte)
  /-- `free_lock(&printf_lock)` -/
  | free
  /-- Code that does not print. -/
  | work
  /-- `kkill`, or the loop of the panic vector. -/
  | halt

/-- The body of `kprintf`, step by step. -/
def PrintCall.actions (call : PrintCall) : List Action :=
  .acquire :: (call.format.take (strlen call.format)).map (.print call) ++ [.free]

section Handler

variable (exceptionMessages : Word → Word)

/-- The report of an exception.  `exceptionMessages` gives the pointers of the table
`exception_messages`.  The table has 31 strings, so for the number 31 it gives the word behind
the last one.  Where that is `NULL`, `print_str` faults on it while the report has `printf_lock`. -/
def exceptionReport (r : InterruptFrame) : List PrintCall :=
  [.of "\nOh no! Received interrupt \x7bd\x7d, '\x7bs\x7d'. Below is the provided stack frame\x7bn\x7d\x7bn\x7d"
      [r.intNo, exceptionMessages r.intNo],
    .of "error code 0x\x7bxn\x7d" [r.err],
    .of "rax 0x\x7bx\x7d | rbx 0x\x7bx\x7d | rcx 0x\x7bx\x7d | rdx 0x\x7bxn\x7d"
      [r.rax, r.rbx, r.rcx, r.rdx],
    .of "rdi 0x\x7bx\x7d | rsi 0x\x7bx\x7d | rbp 0x\x7bxn\x7d" [r.rdi, r.rsi, r.rbp],
    .of "r8 0x\x7bx\x7d | r9 0x\x7bx\x7d | r10 0x\x7bx\x7d | r11 0x\x7bx\x7d | r12 0x\x7bx\x7d | r13 0x\x7bx\x7d | r14 0x\x7bx\x7d | r15 0x\x7bxn\x7d"
      [r.r8, r.r9, r.r10, r.r11, r.r12, r.r13, r.r14, r.r15],
    .of "rip 0x\x7bx\x7d | cs 0x\x7bx\x7d | ss 0x\x7bx\x7d | rsp 0x\x7bx\x7d | rflags 0x\x7bxn\x7d"
      [r.rip, r.cs, r.ss, r.rsp, r.rflags]]

/-- `interrupt_handler` -/
def interruptHandler (r : InterruptFrame) : List Action :=
  if r.intNo < 32 then
    (exceptionReport exceptionMessages r).flatMap PrintCall.actions ++ [.halt]
  else
    (if r.intNo = 255 then (PrintCall.of "hey" []).actions else []) ++
      (if r.intNo = 69 then [.work] else []) ++
      (if r.intNo = 70 then [.halt] else [])

end Handler

/-! ## The machine -/

/-- Code in progress.  `holds` says that it has acquired `printf_lock` and not freed it. -/
structure Activation where
  todo : List Action
  printer : Printer
  holds : Bool

/-- An activation that begins. -/
def Activation.of (todo : List Action) : Activation where
  todo
  printer := .start
  holds := false

/-- The CPU: what it executes, and what it has interrupted, the latest first. -/
structure Machine where
  current : Activation
  interrupted : List Activation
  printfLock : Bool
  screen : List Byte

/-- What happens next. -/
inductive Event where
  /-- The CPU executes a step. -/
  | run
  /-- An interrupt or an exception is taken. -/
  | interrupt (r : InterruptFrame)

/-- What kernel code does. -/
inductive KernelOp where
  | kprintf (call : PrintCall)
  | work

def KernelOp.actions : KernelOp → List Action
  | .kprintf call => call.actions
  | .work => [.work]

/-- Kernel code that is about to begin. -/
def Machine.start (program : List KernelOp) : Machine where
  current := .of (program.flatMap KernelOp.actions)
  interrupted := []
  printfLock := false
  screen := []

section Machine

variable (strings : Word → List Byte) (exceptionMessages : Word → Word)

/-- Execute a step of the current code.  When it has nothing left to do, a handler returns
to what it interrupted.  While the lock is held, `acquire_lock` tries again. -/
def Machine.advance (m : Machine) : Machine :=
  match m.current.todo with
  | [] =>
      match m.interrupted with
      | [] => m
      | resumed :: interrupted => { m with current := resumed, interrupted }
  | .acquire :: todo =>
      match acquireLock m.printfLock with
      | .done printfLock =>
          { m with printfLock, current := { todo, printer := .start, holds := true } }
      | _ => m
  | .print call current :: todo =>
      let printer := m.current.printer.cleared.step framebuffer strings call.args current
      { m with
        screen := m.screen ++ printer.output
        current := { m.current with todo, printer } }
  | .free :: todo =>
      { m with
        printfLock := freeLock m.printfLock
        current := { m.current with todo, holds := false } }
  | .work :: todo => { m with current := { m.current with todo } }
  | .halt :: _ => m

/-- The machine after an event. -/
def Machine.next (m : Machine) : Event → Machine
  | .run => m.advance strings
  | .interrupt r =>
      { m with
        current := .of (interruptHandler exceptionMessages r)
        interrupted := m.current :: m.interrupted }

def Machine.step (m : Machine) (event : Event) : Outcome Machine :=
  .done (m.next strings exceptionMessages event)

end Machine

end Lord84

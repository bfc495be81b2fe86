import WalnutOs.Lib.Updates
import WalnutOs.Klib.IdtStubs

/-! The interrupt descriptor table, `klib/idt.hh`, as `Idt::init` fills it, and the
delivery of an interrupt through it. -/

namespace WalnutOs.Klib

open WalnutOs.Lib

universe u

structure IdtEntry where
  isrLow : BitVec 16
  kernelCs : BitVec 16
  reserved : BitVec 8
  attributes : BitVec 8
  isrHigh : BitVec 16

/-- A constructed entry, not present. -/
def IdtEntry.empty : IdtEntry := ⟨0, 0, 0, 0, 0⟩

def IdtEntry.set (handlerAddress : Dword) (flags : BitVec 8) (codeSegment : BitVec 16) : IdtEntry where
  isrLow := (handlerAddress &&& 0xFFFF).setWidth 16
  kernelCs := codeSegment
  reserved := 0
  attributes := flags
  isrHigh := ((handlerAddress >>> 16) &&& 0xFFFF).setWidth 16

/-- The table, and the limit that is loaded with its address. -/
structure Idt where
  entries : BitVec 8 → IdtEntry
  limit : BitVec 16

def kernelStart : Dword := 0x100000
def segmentSize : Dword := 0x10000
def kernelCsSegStart : Dword := 0x10

def codeSegment (stub : Dword) : BitVec 16 :=
  ((stub - kernelStart) / segmentSize + kernelCsSegStart).setWidth 16

/-- The loop of `init` over some places of the table of stubs. -/
def setGates (isrStubTable : Fin 64 → Dword) : List (Fin 64) → (BitVec 8 → IdtEntry) → BitVec 8 → IdtEntry :=
  storeAll (fun i => BitVec.ofNat 8 i.val) fun i =>
    .set (isrStubTable i) 0x8E (codeSegment (isrStubTable i))

/-- An entry is 8 bytes long. -/
def Idt.init (isrStubTable : Fin 64 → Dword) : Idt where
  entries := setGates isrStubTable (List.finRange 64) fun _ => .empty
  limit := 8 * 63

structure Gate where
  selector : BitVec 16
  offset : Dword

/-- How the processor reads an entry; only a present 32-bit interrupt gate is taken. -/
def IdtEntry.gate (entry : IdtEntry) : Option Gate :=
  if entry.attributes = 0x8E then some ⟨entry.kernelCs, entry.isrHigh ++ entry.isrLow⟩ else none

/-- An entry that is not wholly within the limit is a fault. -/
def Idt.gate (idt : Idt) (vector : BitVec 8) : Option Gate :=
  if 8 * vector.toNat + 7 ≤ idt.limit.toNat then (idt.entries vector).gate else none

/-- A descriptor, as far as the delivery of an interrupt depends on it. -/
structure Segment where
  base : Dword
  limit : Dword
  access : BitVec 8
  deriving DecidableEq

/-- Present, for privilege level 0, and with code. -/
def Segment.isKernelCode (segment : Segment) : Bool := segment.access &&& 0xF8 = 0x98

/-- The global descriptor table, which the boot loader has set up, by the numbers of its descriptors. -/
abbrev Gdt := BitVec 13 → Option Segment

/-- The descriptor that a selector stands for: none for the null selector, nor for one of a local
table, which there is none of. The lowest two bits are no part of its number. -/
def Gdt.find (gdt : Gdt) (selector : BitVec 16) : Option Segment :=
  if selector.getLsbD 2 || selector >>> 3 = 0 then none else gdt ((selector >>> 3).setWidth 13)

/-- The address that a gate leads to, only in a segment of kernel code and within its limit. -/
def Gdt.entry (gdt : Gdt) (gate : Gate) : Option Dword :=
  (gdt.find gate.selector).bind fun segment =>
    if segment.isKernelCode && gate.offset ≤ segment.limit then some (segment.base + gate.offset) else none

/-- At the selectors that `init` gives the gates there are flat segments of kernel code. -/
def Gdt.Flat (gdt : Gdt) (isrStubTable : Fin 64 → Dword) : Prop :=
  ∀ i : Fin 64, i.val ≤ 62 → ∃ segment, gdt.find (codeSegment (isrStubTable i)) = some segment ∧
    segment.isKernelCode = true ∧ segment.base = 0 ∧ segment.limit = 0xFFFFFFFF

/-- The stub at an address. -/
def stubAt (isrStubTable : Fin 64 → Dword) (offset : Dword) : Option (Fin 64) :=
  (List.finRange 64).find? fun i => isrStubTable i = offset

variable {Kernel : Type u}

/-- An interrupt from its delivery to the return. The kernel runs at privilege level 0, and so its
code segment's selector has no other. -/
def Idt.deliver (idt : Idt) (gdt : Gdt) (isrStubTable : Fin 64 → Dword) (handlers : Handlers Kernel)
    (back : Dword) (vector : BitVec 8) (errorCode : Option Dword) (state : Cpu × Kernel) :
    Option (Cpu × Kernel) :=
  (idt.gate vector).bind fun gate => (gdt.entry gate).bind fun address =>
    (stubAt isrStubTable address).bind fun i =>
      (Stub.ofVector i).run handlers back
        (state.1.enter (gate.selector &&& 0xFFFC) gate.offset errorCode, state.2)

/-- The handler of a vector. -/
def handlerOf (vector : BitVec 8) : Handler :=
  if vector = 32 then .timerHandler else if vector = 33 then .keyboardHandler else .exceptionHandler

/-- The vector has a gate, and an error code exactly if its stub relies on one. -/
def Expected (vector : BitVec 8) (errorCode : Option Dword) : Prop :=
  vector.toNat ≤ 62 ∧ (errorCode.isSome ↔ vector.toNat ∈ Stub.errVectors)

instance (vector : BitVec 8) (errorCode : Option Dword) : Decidable (Expected vector errorCode) :=
  inferInstanceAs (Decidable (_ ∧ _))

theorem setGates_apply (isrStubTable : Fin 64 → Dword) (entries : BitVec 8 → IdtEntry) (i : Fin 64) :
    setGates isrStubTable (List.finRange 64) entries (BitVec.ofNat 8 i.val) =
      .set (isrStubTable i) 0x8E (codeSegment (isrStubTable i)) := by
  have number : ∀ j : Fin 64, Fin.ofNat 64 (BitVec.ofNat 8 j.val).toNat = j := by
    intro j
    refine Fin.ext ?_
    rw [BitVec.toNat_ofNat, Fin.val_ofNat]
    omega
  have inside : BitVec.ofNat 8 i.val ∈ (List.finRange 64).map fun j : Fin 64 => BitVec.ofNat 8 j.val :=
    List.mem_map.mpr ⟨i, List.mem_finRange i, rfl⟩
  rw [setGates, storeAll_apply (fun vector => .set (isrStubTable (Fin.ofNat 64 vector.toNat)) 0x8E
    (codeSegment (isrStubTable (Fin.ofNat 64 vector.toNat)))) fun j _ => by rw [number j],
    if_pos inside, number i]

theorem IdtEntry.gate_set (handlerAddress : Dword) (codeSegment : BitVec 16) :
    (IdtEntry.set handlerAddress 0x8E codeSegment).gate = some ⟨codeSegment, handlerAddress⟩ := by
  have halves : ((handlerAddress >>> 16) &&& 0xFFFF).setWidth 16 ++ (handlerAddress &&& 0xFFFF).setWidth 16 =
      handlerAddress := by
    have mask : (0xFFFF : Dword).toNat = 2 ^ 16 - 1 := rfl
    have bound := handlerAddress.isLt
    apply BitVec.eq_of_toNat_eq
    simp only [BitVec.toNat_append, BitVec.toNat_setWidth, BitVec.toNat_and, BitVec.toNat_ushiftRight, mask,
      Nat.and_two_pow_sub_one_eq_mod, Nat.mod_mod, Nat.shiftRight_eq_div_pow]
    rw [← Nat.shiftLeft_add_eq_or_of_lt (Nat.mod_lt _ (by decide)), Nat.shiftLeft_eq]
    omega
  exact (if_pos rfl).trans (congrArg (fun offset => some (Gate.mk codeSegment offset)) halves)

/-- The limit leaves out the last of the 64 gates. -/
theorem Idt.gate_init (isrStubTable : Fin 64 → Dword) (i : Fin 64) (within : i.val ≤ 62) :
    (Idt.init isrStubTable).gate (BitVec.ofNat 8 i) =
      some ⟨codeSegment (isrStubTable i), isrStubTable i⟩ := by
  have number : (BitVec.ofNat 8 i).toNat = i.val := Nat.mod_eq_of_lt (by omega)
  have limit : (Idt.init isrStubTable).limit.toNat = 504 := rfl
  rw [gate, number, limit, if_pos (by omega)]
  exact (congrArg IdtEntry.gate (setGates_apply isrStubTable _ i)).trans (IdtEntry.gate_set _ _)

theorem Idt.gate_init_none (isrStubTable : Fin 64 → Dword) {vector : BitVec 8} (beyond : 62 < vector.toNat) :
    (Idt.init isrStubTable).gate vector = none := by
  have limit : (Idt.init isrStubTable).limit.toNat = 504 := rfl
  rw [gate, limit, if_neg (by omega)]

theorem stubAt_eq {isrStubTable : Fin 64 → Dword} (apart : Function.Injective isrStubTable) (i : Fin 64) :
    stubAt isrStubTable (isrStubTable i) = some i := by
  cases found : stubAt isrStubTable (isrStubTable i) with
  | none =>
    exact absurd (decide_eq_true rfl) (List.find?_eq_none.mp found i (List.mem_finRange i))
  | some j =>
    rw [stubAt] at found
    have same : isrStubTable j = isrStubTable i := by simpa using List.find?_some found
    rw [apart same]

section Delivery

variable {gdt : Gdt} {isrStubTable : Fin 64 → Dword} {handlers : Handlers Kernel} {cpu after : Cpu}
variable {base back : Dword} {words : List Dword} {errorCode : Option Dword}

theorem Stub.ofVector_facts (i : Fin 64) : (Stub.ofVector i).handler = handlerOf (BitVec.ofNat 8 i.val) ∧
    (Stub.ofVector i).vectorCode = BitVec.ofNat 32 i.val ∧
    ((Stub.ofVector i).expectsCode = true ↔ i.val ∈ Stub.errVectors) := by
  revert i
  decide

theorem Gdt.Flat.entry (flat : gdt.Flat isrStubTable) (i : Fin 64) (within : i.val ≤ 62) :
    gdt.entry ⟨codeSegment (isrStubTable i), isrStubTable i⟩ = some (isrStubTable i) := by
  obtain ⟨segment, found, code, base, limit⟩ := flat i within
  have low : isrStubTable i ≤ segment.limit := by
    rw [limit, BitVec.le_def]
    exact Nat.le_of_lt_succ (isrStubTable i).isLt
  rw [Gdt.entry, found, Option.bind_some, code, decide_eq_true low, base]
  simp

theorem Idt.deliver_init (flat : gdt.Flat isrStubTable) (apart : Function.Injective isrStubTable)
    (i : Fin 64) (within : i.val ≤ 62) (state : Cpu × Kernel) :
    (Idt.init isrStubTable).deliver gdt isrStubTable handlers back (BitVec.ofNat 8 i) errorCode state =
      (Stub.ofVector i).run handlers back
        (state.1.enter (codeSegment (isrStubTable i) &&& 0xFFFC) (isrStubTable i) errorCode, state.2) := by
  rw [deliver, gate_init isrStubTable i within, Option.bind_some, flat.entry i within, Option.bind_some,
    stubAt_eq apart, Option.bind_some]

theorem expected_ofNat (i : Fin 64) (within : i.val ≤ 62) : Expected (BitVec.ofNat 8 i.val) errorCode ↔
    errorCode.isSome = (Stub.ofVector i).expectsCode := by
  have number : (BitVec.ofNat 8 i.val).toNat = i.val := Nat.mod_eq_of_lt (by omega)
  rw [Expected, number, and_iff_right within, ← (Stub.ofVector_facts i).2.2]
  exact Bool.eq_iff_iff.symm

/-- The vectors that have gates are the numbers of stubs. -/
theorem exists_stub {vector : BitVec 8} (within : vector.toNat ≤ 62) :
    ∃ i : Fin 64, i.val ≤ 62 ∧ vector = BitVec.ofNat 8 i.val :=
  ⟨⟨vector.toNat, by omega⟩, within, by rw [BitVec.ofNat_toNat, BitVec.setWidth_eq]⟩

theorem Idt.deliver_expected (back : Dword) (lawful : Cdecl base handlers.leave)
    (flat : gdt.Flat isrStubTable) (apart : Function.Injective isrStubTable) (stacked : cpu.Stacked base words)
    (room : words.length < 2 ^ 26) {vector : BitVec 8} (expected : Expected vector errorCode) :
    ∃ after : Cpu, after.Resumed cpu base words ∧ ∀ kernel,
      (Idt.init isrStubTable).deliver gdt isrStubTable handlers back vector errorCode (cpu, kernel) =
        (handlers.handle (handlerOf vector)
            (cpu.interruptedState (vector.setWidth 32) (errorCode.getD 0)) kernel).map
          fun kernel => (after, kernel) := by
  obtain ⟨i, within, rfl⟩ := exists_stub expected.1
  have wide : (BitVec.ofNat 8 i.val).setWidth 32 = BitVec.ofNat 32 i.val := by
    have number : (BitVec.ofNat 8 i.val).toNat = i.val := Nat.mod_eq_of_lt (by omega)
    rw [← BitVec.ofNat_toNat, number]
  obtain ⟨handler, code, -⟩ := Stub.ofVector_facts i
  obtain ⟨after, resumed, runs⟩ := Stub.run_resumes back lawful stacked room
    (codeSegment (isrStubTable i) &&& 0xFFFC) (isrStubTable i) ((expected_ofNat i within).mp expected)
  refine ⟨after, resumed, fun kernel => ?_⟩
  rw [deliver_init flat apart i within, runs, handler, code, wide]

/-- For every vector, error code and state of the processor with room on its stack, under handlers
that keep to the calling convention and descriptors that fit the gates: an expected interrupt calls
the handler of its vector once, with the registers of the interrupted code, which then goes on as if
nothing had been; any other one does not return to it with its stack. -/
theorem Idt.delivery_transparent (lawful : Cdecl base handlers.leave)
    (flat : gdt.Flat isrStubTable) (apart : Function.Injective isrStubTable) (stacked : cpu.Stacked base words)
    (room : words.length < 2 ^ 26) (vector : BitVec 8) :
    (Expected vector errorCode → ∃ after : Cpu, after.Resumed cpu base words ∧ ∀ kernel,
      (Idt.init isrStubTable).deliver gdt isrStubTable handlers back vector errorCode (cpu, kernel) =
        (handlers.handle (handlerOf vector)
            (cpu.interruptedState (vector.setWidth 32) (errorCode.getD 0)) kernel).map
          fun kernel => (after, kernel)) ∧
    (¬Expected vector errorCode → ∀ kernel after final,
      (Idt.init isrStubTable).deliver gdt isrStubTable handlers back vector errorCode (cpu, kernel) =
        some (after, final) → ¬after.Resumed cpu base words) := by
  refine ⟨Idt.deliver_expected back lawful flat apart stacked room,
    fun unexpected kernel after final returned resumed => ?_⟩
  by_cases within : vector.toNat ≤ 62
  · obtain ⟨i, inside, rfl⟩ := exists_stub within
    rw [deliver_init flat apart i inside] at returned
    exact Stub.run_misses lawful stacked room _ _ (unexpected ∘ (expected_ofNat i inside).mpr) returned
      resumed.esp
  · rw [deliver, gate_init_none isrStubTable (by omega)] at returned
    cases returned

/-- Stubs that lie one after the other. -/
def evenStubs (i : Fin 64) : Dword := kernelStart + BitVec.ofNat 32 (16 * i.val)

theorem evenStubs_injective : Function.Injective evenStubs := by
  intro i j same
  have values := congrArg BitVec.toNat ((BitVec.add_right_inj _).mp same)
  simp only [BitVec.toNat_ofNat] at values
  exact Fin.ext (by omega)

/-- A descriptor table with code at the selector of the kernel's first segment, and data behind it. -/
def bootGdt : Gdt := fun number =>
  if number = 2 then some ⟨0, 0xFFFFFFFF, 0x9A⟩
  else if number = 3 then some ⟨0, 0xFFFFFFFF, 0x92⟩ else none

theorem bootGdt_flat : bootGdt.Flat evenStubs := by
  have found : ∀ i : Fin 64, bootGdt.find (codeSegment (evenStubs i)) = some ⟨0, 0xFFFFFFFF, 0x9A⟩ := by
    decide +kernel
  exact fun i _ => ⟨_, found i, by decide, rfl, rfl⟩

/-- A processor with one word on its stack. -/
def Cpu.waiting : Cpu := ⟨⟨1, 2, 3, 4, 5, 6, 7⟩, 0x8FFC, 0x101000, 0x10, 0x202, fun _ => 9⟩

theorem Cpu.waiting_stacked : Cpu.waiting.Stacked 0x9000 [9] := ⟨rfl, rfl, trivial⟩

/-- A page fault, under a handler that counts. -/
theorem Idt.delivery_transparent_page_fault : ∃ after : Cpu, after.Resumed .waiting 0x9000 [9] ∧
    ∀ count, (Idt.init evenStubs).deliver bootGdt evenStubs
      ⟨fun _ count => some (count + 1), fun _ => some, some, returnAtOnce⟩ 0x100FF0 14 (some 2)
      (.waiting, count) = some (after, count + 1) :=
  (Idt.delivery_transparent Cdecl.returnAtOnce bootGdt_flat evenStubs_injective Cpu.waiting_stacked
    (by decide) 14).1 (by decide)

end Delivery

end WalnutOs.Klib

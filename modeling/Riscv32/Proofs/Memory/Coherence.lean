import Mathlib.Data.List.Forall2
import Mathlib.Data.List.GetD
import Riscv32.Proofs.Memory.Access

/-!
# Decode caches that cannot be seen

A section of bytes remembers what its slots decoded to. As long as each filled slot holds what its
bytes decode to now, a fetch gives the same instruction whether it is remembered or decoded anew,
and every access keeps it so: a fetch fills a slot with what it has just decoded, and a write
forgets each slot that one of its bytes lies in, whatever its width and alignment.

## Main definitions

* `SameResult`, `Blind` — actions that cannot tell related states apart.
* `DecodeCache.Coherent` — filled slots hold what the bytes decode to.
* `Section.Alike`, `AddressSpace.Alike` — equal but for their caches, which are coherent.
* `Section.instructionAt`, `AddressSpace.decodeAt` — fetching without a cache.

## Main statements

* `DecodeCache.Coherent.write`, a write of any bytes keeps the cache coherent.
* `Section.Alike.fetch`, a fetch decodes the current bytes.
* `AddressSpace.sameResult_fetch`, a fetch is like one without a cache.
* `AddressSpace.blind_read`, `AddressSpace.blind_write`, `AddressSpace.blind_fetch`, the accesses
  do not see the caches.
-/
namespace Riscv32

/-! ## Actions that cannot tell states apart -/

section Blind

variable {ε σ α β : Type} {R : σ → σ → Prop}

/-- The same answer or the same error, with related states left behind. -/
inductive SameResult (R : σ → σ → Prop) :
    EStateM.Result ε σ α → EStateM.Result ε σ α → Prop
  | ok (a : α) {s t : σ} : R s t → SameResult R (.ok a s) (.ok a t)
  | error (e : ε) {s t : σ} : R s t → SameResult R (.error e s) (.error e t)

/-- An action that cannot tell related states apart. -/
def Blind (R : σ → σ → Prop) (x : EStateM ε σ α) : Prop :=
  ∀ s t, R s t → SameResult R (x s) (x t)

theorem SameResult.symm {x y : EStateM.Result ε σ α} (h : SameResult R x y)
    (hR : ∀ s t, R s t → R t s) : SameResult R y x := by
  cases h with
  | ok a h => exact .ok a (hR _ _ h)
  | error e h => exact .error e (hR _ _ h)

theorem SameResult.trans {x y z : EStateM.Result ε σ α} (h : SameResult R x y)
    (h' : SameResult R y z) (hR : ∀ s t u, R s t → R t u → R s u) : SameResult R x z := by
  cases h with
  | ok a h =>
    cases h' with
    | ok _ h' => exact .ok a (hR _ _ _ h h')
  | error e h =>
    cases h' with
    | error _ h' => exact .error e (hR _ _ _ h h')

theorem blind_pure (a : α) : Blind R (pure a : EStateM ε σ α) := fun _ _ h => .ok a h

theorem blind_throw (e : ε) : Blind R (throw e : EStateM ε σ α) := fun _ _ h => .error e h

theorem Blind.bind {x : EStateM ε σ α} {f : α → EStateM ε σ β} (hx : Blind R x)
    (hf : ∀ a, Blind R (f a)) : Blind R (x >>= f) := by
  intro s t h
  have hxst := hx s t h
  simp only [Bind.bind, EStateM.bind]
  cases hs : x s <;> cases ht : x t <;> rw [hs, ht] at hxst <;> cases hxst
  case ok.ok.ok a s₁ t₁ h₁ => exact hf a s₁ t₁ h₁
  case error.error.error e s₁ t₁ h₁ => exact .error e h₁

theorem blind_get_bind {f : σ → EStateM ε σ α}
    (hf : ∀ s t, R s t → SameResult R (f s s) (f t t)) : Blind R (get >>= f) := hf

/-- An action that takes from the state only what related states have in common. -/
theorem blind_of_get {f : σ → EStateM ε σ α} (hcommon : ∀ s t, R s t → f s = f t)
    (hf : ∀ s, Blind R (f s)) : Blind R (get >>= f) := by
  intro s t h
  change SameResult R (f s s) (f t t)
  rw [hcommon s t h]
  exact hf t s t h

theorem blind_modify {f : σ → σ} (hf : ∀ s t, R s t → R (f s) (f t)) :
    Blind R (modify f : EStateM ε σ Unit) := fun s t h => .ok () (hf s t h)

end Blind

/-! ## Coherent caches -/

theorem ByteStore.read_write_of_apart {store : ByteStore} {data : List Byte} {i n j : Nat}
    (h : i + n ≤ j ∨ j + data.length ≤ i) : (store.write j data).read i n = store.read i n := by
  refine List.map_congr_left fun k hk => ?_
  obtain ⟨hlo, hhi⟩ := List.mem_range'_1.1 hk
  rw [get_write]
  split
  next hjk =>
    have hout : data.length ≤ k - j := by omega
    rw [List.getD_eq_default _ _ hout]
  next => rfl

namespace DecodeCache

variable {cache : DecodeCache} {store : ByteStore} {slot : Nat} {d : Decoded}

/-- A slot is filled with nothing but what its word decodes to now. A last slot that is no whole
word is never read. -/
def Coherent (cache : DecodeCache) (store : ByteStore) : Prop :=
  ∀ slot d, cache[slot]? = some d → 4 * slot + 4 ≤ store.size →
    decode (Section.wordInSlot store slot) = .ok d

/-- An empty cache is coherent. -/
theorem coherent_empty (store : ByteStore) : Coherent ∅ store := by
  intro slot d h
  simp at h

/-- A slot that is still filled after bytes were written has none of them in it. -/
theorem apart_of_getElem?_invalidate {offset length : Nat}
    (h : (cache.invalidate offset length)[slot]? = some d) :
    cache[slot]? = some d ∧ (4 * slot + 4 ≤ offset ∨ offset + length ≤ 4 * slot ∨ length = 0) := by
  rw [invalidate] at h
  split at h
  next hlength => exact ⟨h, .inr (.inr hlength)⟩
  next hlength =>
    rw [getElem?_forget] at h
    split at h
    next => cases h
    next hout => exact ⟨h, by omega⟩

/-- Forgetting the slots that a write touches keeps the cache coherent. -/
theorem Coherent.write (h : cache.Coherent store) (offset : Nat) (data : List Byte) :
    (cache.invalidate offset data.length).Coherent (store.write offset data) := by
  intro slot d hd hsize
  rw [ByteStore.size_write] at hsize
  obtain ⟨hcache, hapart⟩ := apart_of_getElem?_invalidate hd
  have hword :
      Section.wordInSlot (store.write offset data) slot = Section.wordInSlot store slot := by
    rcases hapart with hbefore | hbehind | hnone
    · rw [Section.wordInSlot, ByteStore.read_write_of_apart (.inl hbefore), Section.wordInSlot]
    · rw [Section.wordInSlot, ByteStore.read_write_of_apart (.inr hbehind), Section.wordInSlot]
    · rw [List.length_eq_zero_iff.1 hnone, ByteStore.write]
  rw [hword]
  exact h slot d hcache hsize

/-- Remembering what a slot decoded to keeps the cache coherent. -/
theorem Coherent.insert (h : cache.Coherent store)
    (hd : decode (Section.wordInSlot store slot) = .ok d) :
    Coherent (cache.insert slot d) store := by
  intro slot' d' hd' hsize
  rw [Std.TreeMap.getElem?_insert] at hd'
  split at hd'
  next heq =>
    obtain rfl := Std.LawfulEqCmp.eq_of_compare heq
    cases hd'
    exact hd
  next => exact h slot' d' hd' hsize

end DecodeCache

/-! ## Sections -/

namespace Section

/-- Equal sections, but for their decode caches, which are coherent. -/
inductive Alike : Section → Section → Prop
  | bytes (name owner : String) (base : Word) (permissions : Permissions) {store : ByteStore}
    {decoded decoded' : DecodeCache} : decoded.Coherent store → decoded'.Coherent store →
    Alike ⟨name, owner, base, permissions, .bytes store decoded⟩
      ⟨name, owner, base, permissions, .bytes store decoded'⟩
  | instructions (name owner : String) (base : Word) (permissions : Permissions)
    (list : Array Instruction) :
    Alike ⟨name, owner, base, permissions, .instructions list⟩
      ⟨name, owner, base, permissions, .instructions list⟩

/-- The instruction in a slot, decoded from the bytes that are there now. -/
def instructionInSlot (s : Section) (addr : Word) (slot : Nat) : Except MemoryError Instruction :=
  match s.contents with
  | .instructions list =>
    match list[slot]? with
    | some inst => .ok inst
    | none => .error (.outOfBounds addr 4 .fetch)
  | .bytes store _ =>
    match decode (wordInSlot store slot) with
    | .error e => .error (.decode e)
    | .ok d => .ok (.raw d)

/-- The instruction at an address, decoded from the bytes that are there now. -/
def instructionAt (s : Section) (addr : Word) : Except MemoryError Instruction :=
  if !s.permissions.executable then .error (.notExecutable addr s.name)
  else if !(addr - s.base).isAligned then .error (.misalignedFetch addr)
  else
    match s.offset addr 4 .fetch with
    | .error e => .error e
    | .ok offset => s.instructionInSlot addr (offset / 4)

variable {s t u : Section}

theorem Alike.symm (h : s.Alike t) : t.Alike s := by
  cases h with
  | bytes name owner base permissions h h' => exact .bytes _ _ _ _ h' h
  | instructions => exact .instructions ..

theorem Alike.trans (h : s.Alike t) (h' : t.Alike u) : s.Alike u := by
  cases h with
  | bytes name owner base permissions h _ =>
    cases h' with
    | bytes _ _ _ _ _ h' => exact .bytes _ _ _ _ h h'
  | instructions => exact h'

theorem Alike.name_eq (h : s.Alike t) : s.name = t.name := by cases h <;> rfl

theorem Alike.permissions_eq (h : s.Alike t) : s.permissions = t.permissions := by
  cases h <;> rfl

theorem Alike.size_eq (h : s.Alike t) : s.size = t.size := by cases h <;> rfl

theorem Alike.base_eq (h : s.Alike t) : s.base = t.base := by cases h <;> rfl

theorem Alike.endAddress_eq (h : s.Alike t) : s.endAddress = t.endAddress := by cases h <;> rfl

theorem Alike.contains_eq (h : s.Alike t) (addr : Word) : s.contains addr = t.contains addr := by
  cases h <;> rfl

theorem Alike.offset_eq (h : s.Alike t) (addr : Word) (size : Nat) (access : AccessKind) :
    s.offset addr size access = t.offset addr size access := by
  cases h <;> rfl

theorem Alike.read_eq (h : s.Alike t) (addr : Word) (size : Nat) :
    s.read addr size = t.read addr size := by
  unfold read
  rw [h.offset_eq]
  cases t.offset addr size .read <;> cases h <;> rfl

theorem Alike.byteAt?_eq (h : s.Alike t) (addr : Word) : s.byteAt? addr = t.byteAt? addr := by
  cases h <;> rfl

/-- Writes to sections that are alike fail for the same reason or leave sections that are alike. -/
theorem Alike.write (h : s.Alike t) (addr : Word) (data : List Byte) :
    (∃ e, s.write addr data = .error e ∧ t.write addr data = .error e) ∨
      ∃ s' t', s.write addr data = .ok s' ∧ t.write addr data = .ok t' ∧ s'.Alike t' := by
  have hoffset := h.offset_eq addr data.length .write
  cases h with
  | instructions name owner base permissions list =>
    cases hwrite : Section.write ⟨name, owner, base, permissions, .instructions list⟩ addr data with
    | error e => exact .inl ⟨e, rfl, rfl⟩
    | ok s' =>
      obtain ⟨-, -, store, decoded, decoded', hc, -⟩ := write_eq_ok hwrite
      cases hc
  | bytes name owner base permissions h h' =>
    unfold Section.write
    by_cases hro : permissions.readOnly
    · exact .inl ⟨_, if_pos hro, if_pos hro⟩
    · rw [if_neg hro, if_neg hro, hoffset]
      cases Section.offset _ addr data.length .write with
      | error e => exact .inl ⟨e, rfl, rfl⟩
      | ok offset =>
        exact .inr ⟨_, _, rfl, rfl, .bytes _ _ _ _ (h.write offset data) (h'.write offset data)⟩

/-- What is fetched from a slot is what its bytes decode to now, and the section is the same but
for what the cache holds. -/
theorem Alike.fetchSlot (h : s.Alike t) (addr : Word) {slot : Nat} (hslot : 4 * slot + 4 ≤ s.size) :
    (∃ e, s.fetchSlot addr slot = .error e ∧ t.instructionInSlot addr slot = .error e) ∨
      ∃ inst s', s.fetchSlot addr slot = .ok (inst, s') ∧
        t.instructionInSlot addr slot = .ok inst ∧ s'.Alike t := by
  cases h with
  | instructions name owner base permissions list =>
    dsimp only [Section.fetchSlot, instructionInSlot]
    cases list[slot]? with
    | none => exact .inl ⟨_, rfl, rfl⟩
    | some inst => exact .inr ⟨inst, _, rfl, rfl, .instructions ..⟩
  | @bytes name owner base permissions store decoded decoded' h h' =>
    dsimp only [Section.fetchSlot, instructionInSlot]
    cases hcached : decoded[slot]? with
    | some d =>
      rw [h slot d hcached hslot]
      exact .inr ⟨_, _, rfl, rfl, .bytes _ _ _ _ h h'⟩
    | none =>
      cases hd : decode (wordInSlot store slot) with
      | error e => exact .inl ⟨_, rfl, rfl⟩
      | ok d => exact .inr ⟨_, _, rfl, rfl, .bytes _ _ _ _ (h.insert hd) h'⟩

/-- The same for a fetch. -/
theorem Alike.fetch (h : s.Alike t) (addr : Word) :
    (∃ e, s.fetch addr = .error e ∧ t.instructionAt addr = .error e) ∨
      ∃ inst s', s.fetch addr = .ok (inst, s') ∧ t.instructionAt addr = .ok inst ∧ s'.Alike t := by
  unfold Section.fetch instructionAt
  rw [h.permissions_eq, h.name_eq, h.base_eq, h.offset_eq]
  by_cases hexec : !t.permissions.executable
  · exact .inl ⟨_, if_pos hexec, if_pos hexec⟩
  by_cases haligned : !(addr - t.base).isAligned
  · exact .inl ⟨_, by rw [if_neg hexec, if_pos haligned], by rw [if_neg hexec, if_pos haligned]⟩
  rw [if_neg hexec, if_neg hexec, if_neg haligned, if_neg haligned]
  cases hoffset : t.offset addr 4 .fetch with
  | error e => exact .inl ⟨e, rfl, rfl⟩
  | ok offset =>
    obtain ⟨hbase, hend, rfl⟩ := offset_eq_ok hoffset
    rw [endAddress] at hend
    have hsize := h.size_eq
    exact h.fetchSlot addr (by omega)

/-- What is fetched from bytes is a decoded word. -/
theorem Alike.decode_of_fetch (h : s.Alike s) (hbytes : s.holdsInstructions = false) {addr : Word}
    {inst : Instruction} (hfetch : s.fetch addr = .ok (inst, t)) :
    ∃ w d, decode w = .ok d ∧ inst = .raw d := by
  rcases h.fetch addr with ⟨e, he, -⟩ | ⟨inst', s', hok, hat, -⟩
  · rw [hfetch] at he
    cases he
  · rw [hfetch] at hok
    cases hok
    unfold instructionAt instructionInSlot at hat
    cases hcontents : s.contents with
    | instructions list =>
      simp only [holdsInstructions, hcontents] at hbytes
      cases hbytes
    | bytes store decoded =>
      rw [hcontents] at hat
      split at hat
      · cases hat
      split at hat
      · cases hat
      split at hat
      · cases hat
      dsimp only at hat
      split at hat
      · cases hat
      case h_2 d hd =>
        cases hat
        exact ⟨_, d, hd, rfl⟩

/-- A section without remembered instructions is like itself. -/
theorem alike_zeroed (name owner : String) (base : Word) (size : Nat) (permissions : Permissions) :
    Alike { zeroed name base size permissions with owner }
      { zeroed name base size permissions with owner } :=
  .bytes _ _ _ _ (DecodeCache.coherent_empty _) (DecodeCache.coherent_empty _)

end Section

/-! ## Lists of sections -/

section Lists

variable {l l' : List Section}

theorem map_eq_of_alike {α : Type} {f : Section → α} (hf : ∀ s t, s.Alike t → f s = f t)
    (h : List.Forall₂ Section.Alike l l') : l.map f = l'.map f := by
  induction h with
  | nil => rfl
  | cons hst _ ih => rw [List.map_cons, List.map_cons, hf _ _ hst, ih]

theorem takeWhile_of_alike {p : Section → Bool} (hp : ∀ s t, s.Alike t → p s = p t)
    (h : List.Forall₂ Section.Alike l l') :
    List.Forall₂ Section.Alike (l.takeWhile p) (l'.takeWhile p) := by
  induction h with
  | nil => exact .nil
  | cons hst _ ih =>
    rw [List.takeWhile_cons, List.takeWhile_cons, hp _ _ hst]
    split
    · exact .cons hst ih
    · exact .nil

theorem dropWhile_of_alike {p : Section → Bool} (hp : ∀ s t, s.Alike t → p s = p t)
    (h : List.Forall₂ Section.Alike l l') :
    List.Forall₂ Section.Alike (l.dropWhile p) (l'.dropWhile p) := by
  induction h with
  | nil => exact .nil
  | cons hst htail ih =>
    rw [List.dropWhile_cons, List.dropWhile_cons, hp _ _ hst]
    split
    · exact ih
    · exact .cons hst htail

theorem getLast?_of_alike (h : List.Forall₂ Section.Alike l l') :
    (l.getLast? = none ∧ l'.getLast? = none) ∨
      ∃ s t, l.getLast? = some s ∧ l'.getLast? = some t ∧ s.Alike t := by
  have hreverse := List.rel_reverse h
  rw [← List.head?_reverse, ← List.head?_reverse]
  generalize l.reverse = r, l'.reverse = r' at hreverse
  cases hreverse with
  | nil => exact .inl ⟨rfl, rfl⟩
  | cons hst _ => exact .inr ⟨_, _, rfl, rfl, hst⟩

theorem forall₂_alike_trans {l'' : List Section} (h : List.Forall₂ Section.Alike l l')
    (h' : List.Forall₂ Section.Alike l' l'') : List.Forall₂ Section.Alike l l'' := by
  induction h generalizing l'' with
  | nil => exact h'
  | cons hst _ ih =>
    cases h' with
    | cons htu h' => exact .cons (hst.trans htu) (ih h')

theorem set_of_alike {s t : Section} (hst : s.Alike t) (h : List.Forall₂ Section.Alike l l')
    (i : Nat) : List.Forall₂ Section.Alike (l.set i s) (l'.set i t) := by
  induction h generalizing i with
  | nil => exact .nil
  | cons hhead htail ih =>
    cases i with
    | zero => exact .cons hst htail
    | succ i => exact .cons hhead (ih i)

end Lists

namespace AddressSpace

/-- Equal address spaces, but for the decode caches of their sections, which are coherent. -/
def Alike (m n : AddressSpace) : Prop :=
  ∃ sections, n = { m with sections } ∧ List.Forall₂ Section.Alike m.sections sections

/-- Fetches an instruction by decoding the bytes that are there now, and remembers nothing. -/
def decodeAt (addr : Word) : Access Instruction := fun m =>
  match m.resolve addr 4 .fetch with
  | .error e => .error e m
  | .ok (_, s, m) =>
    match s.instructionAt addr with
    | .error e => .error e m
    | .ok inst => .ok inst m

variable {m n k : AddressSpace}

theorem Alike.symm (h : m.Alike n) : n.Alike m := by
  obtain ⟨sections, rfl, h⟩ := h
  exact ⟨m.sections, rfl, h.flip.imp fun _ _ hst => Section.Alike.symm hst⟩

theorem Alike.trans (h : m.Alike n) (h' : n.Alike k) : m.Alike k := by
  obtain ⟨sections, rfl, h⟩ := h
  obtain ⟨sections', rfl, h'⟩ := h'
  exact ⟨sections', rfl, forall₂_alike_trans h h'⟩

/-- The sections of a space with coherent caches have coherent caches. -/
theorem Alike.of_mem (h : m.Alike m) {s : Section} (hs : s ∈ m.sections) : s.Alike s := by
  obtain ⟨sections, heq, hall⟩ := h
  have hsections : m.sections = sections := congrArg AddressSpace.sections heq
  rw [← hsections] at hall
  exact List.forall₂_same.1 hall s hs

theorem Alike.below (h : m.Alike n) (addr : Word) :
    List.Forall₂ Section.Alike (m.below addr) (n.below addr) := by
  obtain ⟨sections, rfl, h⟩ := h
  exact takeWhile_of_alike (fun s t hst => by rw [hst.base_eq]) h

theorem Alike.above (h : m.Alike n) (addr : Word) :
    List.Forall₂ Section.Alike (m.above addr) (n.above addr) := by
  obtain ⟨sections, rfl, h⟩ := h
  exact dropWhile_of_alike (fun s t hst => by rw [hst.base_eq]) h

theorem Alike.locate? (h : m.Alike n) (addr : Word) :
    (m.locate? addr = none ∧ n.locate? addr = none) ∨
      ∃ i s t, m.locate? addr = some (i, s) ∧ n.locate? addr = some (i, t) ∧ s.Alike t := by
  have hbelow := h.below addr
  simp only [AddressSpace.locate?, hbelow.length_eq]
  rcases getLast?_of_alike hbelow with ⟨hm, hn⟩ | ⟨s, t, hm, hn, hst⟩
  · exact .inl ⟨by rw [hm]; rfl, by rw [hn]; rfl⟩
  · rw [hm, hn, Option.filter_some, Option.filter_some, hst.contains_eq]
    split
    · exact .inr ⟨_, s, t, rfl, rfl, hst⟩
    · exact .inl ⟨rfl, rfl⟩

/-- Spaces that are alike hold the same bytes. -/
theorem Alike.byteAt?_eq (h : m.Alike n) (addr : Word) : m.byteAt? addr = n.byteAt? addr := by
  rw [AddressSpace.byteAt?, AddressSpace.byteAt?, ← map_snd_locate?, ← map_snd_locate?]
  rcases h.locate? addr with ⟨hm, hn⟩ | ⟨i, s, t, hm, hn, hst⟩
  · rw [hm, hn]
  · rw [hm, hn]
    exact hst.byteAt?_eq addr

theorem Alike.window_eq (h : m.Alike n) (addr : Word) : m.window addr = n.window addr := by
  have hend := map_eq_of_alike (fun _ _ hst => hst.endAddress_eq) (h.below addr)
  have hbase := map_eq_of_alike (f := (·.base.toNat)) (fun _ _ hst => by rw [hst.base_eq])
    (h.above addr)
  unfold AddressSpace.window
  rw [← List.getLast?_map, ← List.head?_map, hend, hbase, List.getLast?_map, List.head?_map]

theorem Alike.mapWindow (h : m.Alike n) (addr : Word) :
    (m.mapWindow addr).Alike (n.mapWindow addr) := by
  have hwindow : (m.window addr).Alike (n.window addr) := by
    rw [← h.window_eq]
    exact Section.alike_zeroed ..
  have hsections : List.Forall₂ Section.Alike (m.mapWindow addr).sections
      (n.mapWindow addr).sections :=
    List.rel_append (h.below addr) (.cons hwindow (h.above addr))
  obtain ⟨sections, rfl, -⟩ := h
  exact ⟨_, rfl, hsections⟩

theorem Alike.setSection (h : m.Alike n) (i : Nat) {s t : Section} (hst : s.Alike t) :
    (m.setSection i s).Alike (n.setSection i t) := by
  obtain ⟨sections, rfl, h⟩ := h
  exact ⟨_, rfl, set_of_alike hst h i⟩

/-- The search for an address does not see the caches. -/
theorem Alike.resolve (h : m.Alike n) (addr : Word) (size : Nat) (access : AccessKind) :
    (∃ e, m.resolve addr size access = .error e ∧ n.resolve addr size access = .error e) ∨
      ∃ i s t m' n', m.resolve addr size access = .ok (i, s, m') ∧
        n.resolve addr size access = .ok (i, t, n') ∧ s.Alike t ∧ m'.Alike n' := by
  have hlazy : n.lazyMapping = m.lazyMapping := by
    obtain ⟨sections, rfl, -⟩ := h
    rfl
  unfold AddressSpace.resolve
  rcases h.locate? addr with ⟨hm, hn⟩ | ⟨i, s, t, hm, hn, hst⟩
  · rw [hm, hn]
    dsimp only
    by_cases hmap : (m.lazyMapping && decide (addr.toNat < mappableEnd)) = true
    · have hmap' : (n.lazyMapping && decide (addr.toNat < mappableEnd)) = true := by rwa [hlazy]
      have hwindow : (m.window addr).Alike (n.window addr) := by
        rw [← h.window_eq]
        exact Section.alike_zeroed ..
      rw [if_pos hmap, if_pos hmap', (h.below addr).length_eq]
      exact .inr ⟨_, _, _, m.mapWindow addr, n.mapWindow addr, rfl, rfl, hwindow, h.mapWindow addr⟩
    · have hmap' : ¬ (n.lazyMapping && decide (addr.toNat < mappableEnd)) = true := by rwa [hlazy]
      exact .inl ⟨_, if_neg hmap, if_neg hmap'⟩
  · rw [hm, hn]
    exact .inr ⟨i, s, t, m, n, rfl, rfl, hst, h⟩

/-! ## The accesses -/

theorem blind_read (addr : Word) (size : Nat) : Blind Alike (AddressSpace.read addr size) := by
  intro m n h
  unfold AddressSpace.read
  rcases h.resolve addr size .read with ⟨e, hm, hn⟩ | ⟨i, s, t, m', n', hm, hn, hst, h'⟩
  · rw [hm, hn]
    exact .error e h
  · rw [hm, hn]
    dsimp only
    rw [hst.read_eq]
    cases t.read addr size with
    | error e => exact .error e h'
    | ok bytes => exact .ok bytes h'

theorem blind_write (addr : Word) (data : List Byte) :
    Blind Alike (AddressSpace.write addr data) := by
  intro m n h
  unfold AddressSpace.write
  rcases h.resolve addr data.length .write with ⟨e, hm, hn⟩ | ⟨i, s, t, m', n', hm, hn, hst, h'⟩
  · rw [hm, hn]
    exact .error e h
  · rw [hm, hn]
    dsimp only
    rcases hst.write addr data with ⟨e, hs, ht⟩ | ⟨s', t', hs, ht, hst'⟩
    · rw [hs, ht]
      exact .error e h'
    · rw [hs, ht]
      exact .ok () (h'.setSection i hst')

/-- The section that the search handed out stands where it was found. -/
theorem setSection_self {addr : Word} {size i : Nat} {access : AccessKind} {s : Section}
    (h : m.resolve addr size access = .ok (i, s, n)) : n.setSection i s = n := by
  obtain ⟨-, -, front, back, hsections, rfl⟩ := resolve_eq_ok h
  have hset : n.sections.set front.length s = n.sections := by
    rw [hsections, List.set_append_right _ _ (Nat.le_refl _), Nat.sub_self, List.set_cons_zero]
  rw [setSection, hset]

/-- A fetch is like one that decodes the current bytes and remembers nothing. -/
theorem sameResult_fetch (addr : Word) (h : m.Alike n) :
    SameResult Alike (AddressSpace.fetch addr m) (decodeAt addr n) := by
  unfold AddressSpace.fetch decodeAt
  rcases h.resolve addr 4 .fetch with ⟨e, hm, hn⟩ | ⟨i, s, t, m', n', hm, hn, hst, h'⟩
  · rw [hm, hn]
    exact .error e h
  · rw [hm, hn]
    dsimp only
    rcases hst.fetch addr with ⟨e, hs, ht⟩ | ⟨inst, s', hs, ht, hst'⟩
    · rw [hs, ht]
      exact .error e h'
    · rw [hs, ht]
      have hself : n'.setSection i t = n' := setSection_self hn
      rw [← hself]
      exact .ok inst (h'.setSection i hst')

/-- A fetch does not see the caches: in either space it is like one that decodes the current bytes
of the second. -/
theorem blind_fetch (addr : Word) : Blind Alike (AddressSpace.fetch addr) := by
  intro m n h
  have hself : n.Alike n := h.symm.trans h
  have hdecoding := (sameResult_fetch addr hself).symm fun _ _ => Alike.symm
  exact (sameResult_fetch addr h).trans hdecoding fun _ _ _ => Alike.trans

theorem blind_readNat (addr : Word) (count : Nat) : Blind Alike (readNat addr count) :=
  (blind_read addr count).bind fun _ => blind_pure _

theorem blind_writeNat (addr : Word) (count v : Nat) : Blind Alike (writeNat addr count v) :=
  blind_write addr (littleEndian count v)

end AddressSpace
end Riscv32

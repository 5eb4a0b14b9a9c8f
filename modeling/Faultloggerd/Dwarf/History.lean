import Faultloggerd.Dwarf.EntryParser
import Faultloggerd.Foundations.MemoTable

/-! # Does the parser remember too much?

`cieOf` and `fdeOf` parse an entry by itself, from a blank one and without tables. A parser is coherent
when its tables hold nothing else. Parsing an entry directly keeps that; the linear scan keeps it as
long as every CIE it meets sets the fields that the entry before it left behind (`CleanScan`).
-/
namespace Faultloggerd.Dwarf
open Foundations.MemoTable Option

/-! ## Entries by themselves -/

section Entries

variable (m : DfxMemory)

def cieOf (addr : Word) : Option (Option CommonInfoEntry) :=
  (readHeader m addr).bind fun h =>
    if h.isCieEntry then
      (fillInCie m h.ptr h.instructionsEnd).map fun fields => fields.map fun f => f.store (h.storeCie {})
    else some none

def fdeOf (addr : Word) : Option (Option FrameDescEntry) :=
  (readHeader m addr).bind fun h =>
    if h.isCieEntry then some none
    else
      (cieOf m h.cieAddr).map fun cie => cie.bind fun cie => fillInFdeBody m h.ptr {h.storeFde {} with cie := cie}

def entryOf (addr : Word) : Option (Option (Word×Option FrameDescEntry)) :=
  (readHeader m addr).bind fun h =>
    if h.isCieEntry then
      (cieOf m addr).map fun cie => cie.map fun cie => (cie.instructionsEnd, none)
    else (fdeOf m addr).map fun fde => fde.map fun fde => (fde.instructionsEnd, some fde)

def linearOf (pc endPc : Word) : ℕ → Word → Option (Option Word)
  | 0, _ => some none
  | count+1, ptr =>
    if ptr.toNat < endPc.toNat then
      (entryOf m ptr).bind fun entry =>
        match entry with
        | none => some none
        | some (next, none) => linearOf pc endPc count next
        | some (next, some fde) =>
          if covers fde pc then some (some ptr) else linearOf pc endPc count next
    else some none

def stepOf {t : Target} (fuel : ℕ) (pc : Word) (uti : UnwindTableInfo) (rs : RegLocState t) :
    Option (Option (RegLocState t)) :=
  let m := m.setDataOffset uti.segbase
  (if uti.isLinear then linearOf m pc uti.endPc uti.tableLen.toNat uti.tableData
    else searchEntry m pc uti).bind fun entry =>
    match entry with
    | none => some none
    | some entry =>
      (fdeOf m entry).bind fun fde =>
        match fde with
        | none => some none
        | some fde => if covers fde pc then (parse m pc fde fuel rs).map some else some none

end Entries

/-! ## Coherent parsers -/

theorem tableWord_setDataOffset (m : DfxMemory) (d : Word) (uti : UnwindTableInfo) (ptr : Word) :
    tableWord (m.setDataOffset d) uti ptr=tableWord m uti ptr := by
  simp [tableWord]

theorem readHeader_setDataOffset (m : DfxMemory) (d addr : Word) :
    readHeader (m.setDataOffset d) addr=readHeader m addr := by
  simp [readHeader]

variable {m : DfxMemory} {bases : Word → Prop} {st : ParserState}

def SameCie (m : DfxMemory) (bases : Word → Prop) (addr : Word) : Prop :=
  ∀ d d', bases d → bases d' → cieOf (m.setDataOffset d) addr = cieOf (m.setDataOffset d') addr

/-- The entry, and the CIE it may name, do not depend on which of the bases in use they are parsed
with. -/
structure SameEntry (m : DfxMemory) (bases : Word → Prop) (addr : Word) : Prop where
  cie : SameCie m bases addr
  fde : ∀ d d', bases d → bases d' → fdeOf (m.setDataOffset d) addr = fdeOf (m.setDataOffset d') addr
  named : ∀ hdr, readHeader m addr = some hdr → SameCie m bases hdr.cieAddr

/-- The tables hold nothing but entries by themselves, parsed with any base in use. -/
structure Coherent (m : DfxMemory) (bases : Word → Prop) (st : ParserState) : Prop where
  base : bases st.dataOffset
  cies : ∀ d, bases d → Agrees (fun addr => (cieOf (m.setDataOffset d) addr).join) st.cieEntries
  fdes : ∀ d, bases d → Agrees (fun addr => (fdeOf (m.setDataOffset d) addr).join) st.fdeEntries

/-- The result is the one of `ref`, and the parser stays coherent at its base. -/
def Yields {α : Type} (m : DfxMemory) (bases : Word → Prop) (st : ParserState)
    (result : Option (Option α×ParserState)) (ref : Option (Option α)) : Prop :=
  result.map Prod.fst = ref ∧
    ∀ out st', result = some (out, st') → Coherent m bases st' ∧ st'.dataOffset = st.dataOffset

theorem Coherent.fresh (dataOffset : Word) (h : bases dataOffset) : Coherent m bases (.fresh dataOffset) where
  base := h
  cies := fun _ _ => Agrees.empty _
  fdes := fun _ _ => Agrees.empty _

section

variable (h : Coherent m bases st)
include h

theorem Coherent.rebase (d : Word) (hd : bases d) : Coherent m bases {st with dataOffset := d} where
  base := hd
  cies := h.cies
  fdes := h.fdes

theorem Coherent.setCie (addr : Word) (cie : Option CommonInfoEntry)
    (hc : cieOf (mem m st) addr=some cie) (hs : SameCie m bases addr) : Coherent m bases (st.setCie addr cie) where
  base := h.base
  cies := fun d hd => (h.cies d hd).store addr cie fun v hv => by
    rw [hs d st.dataOffset hd h.base]
    exact join_eq_some_iff.mpr (by rw [←hv]; exact hc)
  fdes := h.fdes

theorem Coherent.setFde (addr : Word) (fde : Option FrameDescEntry)
    (hf : fdeOf (mem m st) addr=some fde) (hs : SameEntry m bases addr) : Coherent m bases (st.setFde addr fde) where
  base := h.base
  cies := h.cies
  fdes := fun d hd => (h.fdes d hd).store addr fde fun v hv => by
    rw [hs.fde d st.dataOffset hd h.base]
    exact join_eq_some_iff.mpr (by rw [←hv]; exact hf)

theorem Coherent.cie_eq (addr : Word) (cie : CommonInfoEntry)
    (hc : st.cieEntries addr=some cie) : cieOf (mem m st) addr=some (some cie) :=
  join_eq_some_iff.mp (h.cies st.dataOffset h.base addr cie hc)

theorem Coherent.fde_eq (addr : Word) (fde : FrameDescEntry)
    (hf : st.fdeEntries addr=some fde) : fdeOf (mem m st) addr=some (some fde) :=
  join_eq_some_iff.mp (h.fdes st.dataOffset h.base addr fde hf)

end

theorem Yields.of_some {α : Type} {out : Option α} {st' : ParserState}
    {res : Option (Option α×ParserState)} {ref : Option (Option α)}
    (hr : res=some (out, st')) (hr1 : ref=some out) (h : Coherent m bases st')
    (hb : st'.dataOffset=st.dataOffset) : Yields m bases st res ref := by
  subst hr hr1
  refine ⟨rfl, fun out' st'' heq => ?_⟩
  cases heq
  exact ⟨h, hb⟩

theorem Yields.of_none {α : Type} {res : Option (Option α×ParserState)}
    {ref : Option (Option α)} (hr : res=none) (hr1 : ref=none) : Yields m bases st res ref := by
  subst hr hr1
  exact ⟨rfl, fun _ _ heq => nomatch heq⟩

theorem Yields.cases {α : Type} {res : Option (Option α×ParserState)}
    {ref : Option (Option α)} (h : Yields m bases st res ref) :
    (res=none ∧ ref=none) ∨ ∃ out st', res=some (out, st') ∧ ref=some out ∧
      Coherent m bases st' ∧ st'.dataOffset=st.dataOffset := by
  obtain ⟨hr1, hk⟩ := h
  cases hr : res with
  | none => exact .inl ⟨rfl, by rw [←hr1, hr]; rfl⟩
  | some r =>
    obtain ⟨out, st'⟩ := r
    exact .inr ⟨out, st', rfl, by rw [←hr1, hr]; rfl, hk out st' hr⟩

/-! ## CIEs -/

/-- Every field that `left` has set is set by the CIE that is parsed over it. -/
structure Absorbed (f : CieFields) (left : CommonInfoEntry) : Prop where
  hasAugmentationData : left.hasAugmentationData → f.hasAugmentationData
  isSignalFrame : left.isSignalFrame → f.isSignalFrame
  segmentSize : f.segmentSize = none → left.segmentSize = 0
  personality : f.personality = none → left.personality = 0
  lsdaEncoding : f.lsdaEncoding = none → left.lsdaEncoding = 0

theorem getD_congr {α : Type} (o : Option α) (a b : α) (h : o=none → a=b) : o.getD a=o.getD b := by
  cases o with
  | none => exact h rfl
  | some v => rfl

theorem or_of_imp (a b : Bool) (h : b → a) : (a || b)=(a || false) := by
  cases a <;> cases b <;> simp_all

theorem store_absorbed (hdr : EntryHeader) (f : CieFields) (left : CommonInfoEntry)
    (h : Absorbed f left) : f.store (hdr.storeCie left)=f.store (hdr.storeCie {}) := by
  have ha := or_of_imp _ _ h.hasAugmentationData
  have hs1 := or_of_imp _ _ h.isSignalFrame
  have hs := getD_congr _ _ _ h.segmentSize
  have hp := getD_congr _ _ _ h.personality
  have hl := getD_congr _ _ _ h.lsdaEncoding
  simp [CieFields.store, EntryHeader.storeCie, ha, hs1, hs, hp, hl]

section Parse
variable (h : Coherent m bases st) (addr : Word)
include h

theorem finishCie_yields (hdr : EntryHeader) (info : CommonInfoEntry) (hr : readHeader (mem m st) addr=some hdr)
    (hc : hdr.isCieEntry) (hs1 : SameCie m bases addr) (he : info.instructionsEnd=hdr.instructionsEnd)
    (hs : ∀ f, fillInCie (mem m st) hdr.ptr hdr.instructionsEnd=some (some f) →
      f.store info=f.store (hdr.storeCie {})) :
    Yields m bases st (finishCie m st addr hdr.ptr info) (cieOf (mem m st) addr) := by
  unfold finishCie
  rw [he]
  cases hf : fillInCie (mem m st) hdr.ptr hdr.instructionsEnd with
  | none => exact .of_none rfl (by simp [cieOf, hr, hc, hf])
  | some fields =>
    have hb : (fields.map fun f => f.store info) = fields.map fun f => f.store (hdr.storeCie {}) := by
      cases fields with
      | none => rfl
      | some f => rw [map_some, map_some, hs f hf]
    have hof : cieOf (mem m st) addr=some (fields.map fun f => f.store info) := by
      rw [hb]
      simp [cieOf, hr, hc, hf]
    exact .of_some rfl hof (h.setCie addr _ hof hs1) rfl

theorem parseCie_yields (info : CommonInfoEntry)
    (hs : SameCie m bases addr) : Yields m bases st (parseCie m st addr addr info) (cieOf (mem m st) addr) := by
  unfold parseCie
  cases he : st.cieEntries addr with
  | some cie => exact .of_some rfl (h.cie_eq addr cie he) h rfl
  | none =>
    rw [if_pos rfl]
    cases hr : readHeader (mem m st) addr with
    | none => exact .of_none rfl (by simp [cieOf, hr])
    | some hdr =>
      by_cases hc : hdr.isCieEntry
      · simp only [bind_some, hc]
        exact finishCie_yields h addr hdr _ hr hc hs rfl fun f _ => rfl
      · simp only [bind_some, hc]
        exact .of_some rfl (by simp [cieOf, hr, hc]) h rfl

theorem parseCie_scan_yields (hdr : EntryHeader) (left : CommonInfoEntry) (hr : readHeader (mem m st) addr=some hdr)
    (hc : hdr.isCieEntry) (hs : SameCie m bases addr) (hclean : st.cieEntries addr=none → ∀ f,
      fillInCie (mem m st) hdr.ptr hdr.instructionsEnd=some (some f) → Absorbed f left) :
    Yields m bases st (parseCie m st addr hdr.ptr (hdr.storeCie left)) (cieOf (mem m st) addr) := by
  by_cases hp : addr=hdr.ptr
  · rw [←hp]
    exact parseCie_yields h addr _ hs
  unfold parseCie
  cases he : st.cieEntries addr with
  | some cie => exact .of_some rfl (h.cie_eq addr cie he) h rfl
  | none =>
    rw [if_neg hp]
    exact finishCie_yields h addr hdr _ hr hc hs rfl fun f hf => store_absorbed hdr f left (hclean he f hf)

/-! ## FDEs -/

omit h in
theorem fillInFdeBody_blank (m : DfxMemory) (hdr : EntryHeader) (left : FrameDescEntry)
    (cie : CommonInfoEntry) (ptr : Word) : fillInFdeBody m ptr {hdr.storeFde left with cie := cie} =
      fillInFdeBody m ptr {hdr.storeFde {} with cie := cie} := rfl

theorem finishFde_yields (hdr : EntryHeader) (left : FrameDescEntry) (hr : readHeader (mem m st) addr=some hdr)
    (hf : ¬hdr.isCieEntry) (hs : SameEntry m bases addr) :
    Yields m bases st (finishFde m st addr hdr.ptr (hdr.storeFde left)) (fdeOf (mem m st) addr) := by
  have hn : SameCie m bases hdr.cieAddr := hs.named hdr (by rw [←hr, mem, readHeader_setDataOffset])
  obtain ⟨hn1, hc⟩ | ⟨cie, st', hs1, hc, hst', hb⟩ := (parseCie_yields h hdr.cieAddr left.cie hn).cases
  · refine .of_none ?_ (by simp [fdeOf, hr, hf, hc])
    show ((parseCie m st hdr.cieAddr hdr.cieAddr left.cie).map _).map _=none
    rw [hn1]
    rfl
  · have hm : mem m st'=mem m st := by rw [mem, mem, hb]
    have hof : fdeOf (mem m st) addr =
        some (cie.bind fun cie => fillInFdeBody (mem m st) hdr.ptr {hdr.storeFde left with cie := cie}) := by
      simp only [fillInFdeBody_blank _ hdr left]
      simp [fdeOf, hr, hf, hc]
    refine .of_some ?_ hof (hst'.setFde addr _ (by rw [hm]; exact hof) hs) hb
    show ((parseCie m st hdr.cieAddr hdr.cieAddr left.cie).map _).map _=_
    rw [hs1]
    rfl

theorem parseFde_yields (info : FrameDescEntry)
    (hs : SameEntry m bases addr) : Yields m bases st (parseFde m st addr addr info) (fdeOf (mem m st) addr) := by
  unfold parseFde
  cases he : st.fdeEntries addr with
  | some fde => exact .of_some rfl (h.fde_eq addr fde he) h rfl
  | none =>
    rw [if_pos rfl]
    cases hr : readHeader (mem m st) addr with
    | none => exact .of_none rfl (by simp [fdeOf, hr])
    | some hdr =>
      by_cases hc : hdr.isCieEntry
      · simp only [bind_some, hc]
        exact .of_some rfl (by simp [fdeOf, hr, hc]) h rfl
      · simp only [bind_some, hc]
        exact finishFde_yields h addr hdr info hr hc hs

theorem parseFde_scan_yields (hdr : EntryHeader) (left : FrameDescEntry) (hr : readHeader (mem m st) addr=some hdr)
    (hf : ¬hdr.isCieEntry) (hs : SameEntry m bases addr) :
    Yields m bases st (parseFde m st addr hdr.ptr (hdr.storeFde left)) (fdeOf (mem m st) addr) := by
  by_cases hp : addr=hdr.ptr
  · rw [←hp]
    exact parseFde_yields h addr _ hs
  unfold parseFde
  cases he : st.fdeEntries addr with
  | some fde => exact .of_some rfl (h.fde_eq addr fde he) h rfl
  | none =>
    rw [if_neg hp]
    exact finishFde_yields h addr hdr left hr hf hs

end Parse

/-! ## The linear scan -/

/-- The entry does not depend on the base, and a CIE that is not in the table yet sets what the entry
before it left. -/
structure CleanEntry (m : DfxMemory) (bases : Word → Prop) (st : ParserState) (addr : Word)
    (left : CommonInfoEntry) : Prop where
  same : SameEntry m bases addr
  absorbed : ∀ hdr f, st.cieEntries addr = none → readHeader (mem m st) addr = some hdr →
    hdr.isCieEntry → fillInCie (mem m st) hdr.ptr hdr.instructionsEnd = some (some f) →
    Absorbed f left

def CleanScan (m : DfxMemory) (bases : Word → Prop) (pc endPc : Word) :
    ℕ → ParserState → Word → FrameDescEntry → Prop
  | 0, _, _, _ => True
  | count+1, st, ptr, left =>
    ptr.toNat < endPc.toNat → CleanEntry m bases st ptr left.cie ∧
      ∀ next fde st', getCieOrFde m st ptr left = some (some (next, fde), st') → ¬covers fde pc →
        CleanScan m bases pc endPc count st' next fde

theorem entryOf_congr (d d' : Word) (hd : bases d) (hd' : bases d') (addr : Word) (hs : SameEntry m bases addr) :
    entryOf (m.setDataOffset d) addr=entryOf (m.setDataOffset d') addr := by
  rw [entryOf, entryOf, readHeader_setDataOffset, readHeader_setDataOffset, hs.cie d d' hd hd', hs.fde d d' hd hd']

theorem getCieOrFde_spec (h : Coherent m bases st) (addr : Word) (left : FrameDescEntry)
    (hclean : CleanEntry m bases st addr left.cie) : (getCieOrFde m st addr left=none ∧ entryOf (mem m st) addr=none) ∨
      (∃ st', getCieOrFde m st addr left=some (none, st') ∧
        entryOf (mem m st) addr=some none ∧ Coherent m bases st' ∧ st'.dataOffset=st.dataOffset) ∨
      ∃ next fde st', getCieOrFde m st addr left=some (some (next, fde), st') ∧
        Coherent m bases st' ∧ st'.dataOffset=st.dataOffset ∧ (entryOf (mem m st) addr=some (some (next, some fde)) ∨
          entryOf (mem m st) addr=some (some (next, none)) ∧ fde.pcStart=left.pcStart ∧ fde.pcEnd=left.pcEnd) := by
  unfold getCieOrFde entryOf
  cases hr1 : readHeader (mem m st) addr with
  | none => exact .inl ⟨rfl, rfl⟩
  | some hdr =>
    by_cases hc : hdr.isCieEntry
    · simp only [bind_some, hc]
      obtain ⟨hn, hr⟩ | ⟨cie, st', hs, hr, hst', hb⟩ :=
        (parseCie_scan_yields h addr hdr left.cie hr1 hc hclean.same.cie fun he f =>
          hclean.absorbed hdr f he hr1 hc).cases
      · exact .inl ⟨by rw [hn]; rfl, by rw [hr]; rfl⟩
      · rw [hs, hr]
        cases cie with
        | none => exact .inr (.inl ⟨st', rfl, rfl, hst', hb⟩)
        | some cie => exact .inr (.inr ⟨_, _, st', rfl, hst', hb, .inr ⟨rfl, rfl, rfl⟩⟩)
    · simp only [bind_some, hc]
      obtain ⟨hn, hr⟩ | ⟨fde, st', hs, hr, hst', hb⟩ := (parseFde_scan_yields h addr hdr left hr1 hc hclean.same).cases
      · exact .inl ⟨by simp [hn], by simp [hr]⟩
      · simp only [hs, hr]
        cases fde with
        | none => exact .inr (.inl ⟨st', rfl, rfl, hst', hb⟩)
        | some fde => exact .inr (.inr ⟨_, _, st', rfl, hst', hb, .inl rfl⟩)

theorem linearLoop_yields (pc endPc d : Word) (hd : bases d) (count : ℕ) (ptr : Word)
    (left : FrameDescEntry) (h : Coherent m bases st) (hl : ¬covers left pc)
    (hclean : CleanScan m bases pc endPc count st ptr left) :
    Yields m bases st (linearLoop m pc endPc count st ptr left) (linearOf (m.setDataOffset d) pc endPc count ptr) := by
  induction count generalizing st ptr left with
  | zero => exact .of_some rfl rfl h rfl
  | succ count ih =>
    unfold linearLoop linearOf
    by_cases hp : ptr.toNat<endPc.toNat
    · rw [if_pos hp, if_pos hp]
      obtain ⟨he, hr⟩ := hclean hp
      rw [entryOf_congr d st.dataOffset hd h.base ptr he.same]
      obtain ⟨hg, hof⟩ | ⟨st', hg, hof, hst', hb⟩ | ⟨next, fde, st', hg, hst', hb, hof⟩ :=
        getCieOrFde_spec h ptr left he
      · rw [mem] at hof
        rw [hg, hof]
        exact .of_none rfl rfl
      · rw [mem] at hof
        rw [hg, hof]
        exact .of_some rfl rfl hst' hb
      · rw [mem] at hof
        have hn : ¬covers fde pc → Yields m bases st
            (linearLoop m pc endPc count st' next fde)
            (linearOf (m.setDataOffset d) pc endPc count next) := by
          intro hc
          have hy := ih next fde hst' hc (hr next fde st' hg hc)
          refine ⟨hy.1, fun out st'' heq => ?_⟩
          obtain ⟨hco, ho⟩ := hy.2 out st'' heq
          exact ⟨hco, ho.trans hb⟩
        rw [hg]
        obtain hof | ⟨hof, hs, he1⟩ := hof
        · rw [hof]
          by_cases hc : covers fde pc
          · simp only [bind_some, hc]
            exact .of_some rfl rfl hst' hb
          · simp only [bind_some, hc]
            exact hn hc
        · have hc : ¬covers fde pc := by
            unfold covers at hl ⊢
            rw [hs, he1]
            exact hl
          rw [hof]
          simp only [bind_some, hc]
          exact hn hc
    · rw [if_neg hp, if_neg hp]
      exact .of_some rfl rfl h rfl

/-! ## Steps -/

theorem searchLoop_setDataOffset (m : DfxMemory) (d pc : Word) (uti : UnwindTableInfo) (fuel : ℕ) (low high : Word) :
    searchLoop (m.setDataOffset d) pc uti fuel low high=searchLoop m pc uti fuel low high := by
  induction fuel generalizing low high with
  | zero => rfl
  | succ fuel ih => simp [searchLoop, tableWord_setDataOffset, ih]

theorem searchEntry_setDataOffset (m : DfxMemory) (d pc : Word) (uti : UnwindTableInfo) :
    searchEntry (m.setDataOffset d) pc uti=searchEntry m pc uti := by
  simp [searchEntry, searchLoop_setDataOffset, tableWord_setDataOffset]

def searchOf (m : DfxMemory) (pc : Word) (uti : UnwindTableInfo) : Option (Option Word) :=
  if uti.isLinear then
    linearOf (m.setDataOffset uti.segbase) pc uti.endPc uti.tableLen.toNat uti.tableData
  else searchEntry (m.setDataOffset uti.segbase) pc uti

/-- A call with a base in use that finds an entry which does not depend on the base, by a linear
search only over clean entries. -/
structure CleanCall (m : DfxMemory) (bases : Word → Prop) (st : ParserState) (pc : Word)
    (uti : UnwindTableInfo) : Prop where
  base : bases uti.segbase
  scan : uti.isLinear → CleanScan m bases pc uti.endPc uti.tableLen.toNat st uti.tableData {}
  found : ∀ entry, searchOf m pc uti = some (some entry) → SameEntry m bases entry

theorem search_yields (h : Coherent m bases st) (pc : Word) (uti : UnwindTableInfo)
    (hclean : CleanCall m bases st pc uti) : Yields m bases st (search m st pc uti) (searchOf m pc uti) := by
  unfold search searchOf
  by_cases hl : uti.isLinear
  · rw [if_pos hl, if_pos hl]
    exact linearLoop_yields pc uti.endPc uti.segbase hclean.base _ _ {} h
      (fun hc => Nat.not_lt_zero _ hc.2) (hclean.scan hl)
  · rw [if_neg hl, if_neg hl, mem, searchEntry_setDataOffset, searchEntry_setDataOffset]
    cases he : searchEntry m pc uti with
    | none => exact .of_none rfl rfl
    | some entry => exact .of_some rfl rfl h rfl

theorem step_spec {t : Target} (h : Coherent m bases st) (fuel : ℕ) (pc : Word)
    (uti : UnwindTableInfo) (rs : RegLocState t) (hclean : CleanCall m bases st pc uti) :
    (step m fuel st pc uti rs).map Prod.fst=stepOf m fuel pc uti rs ∧
      ∀ out st', step m fuel st pc uti rs=some (out, st') → Coherent m bases st' := by
  have hof : stepOf m fuel pc uti rs=(searchOf m pc uti).bind fun entry => match entry with
      | none => some none
      | some entry =>
        (fdeOf (m.setDataOffset uti.segbase) entry).bind fun fde => match fde with
          | none => some none
          | some fde =>
            if covers fde pc then (parse (m.setDataOffset uti.segbase) pc fde fuel rs).map some
            else some none := rfl
  rw [hof, step]
  obtain ⟨hs, hr⟩ | ⟨entry, st', hs, hr, hst', ho⟩ := (search_yields h pc uti hclean).cases
  · rw [hs, hr]
    exact ⟨rfl, fun _ _ heq => nomatch heq⟩
  rw [hs, hr]
  cases entry with
  | none =>
    refine ⟨rfl, fun out st'' heq => ?_⟩
    cases heq
    exact hst'
  | some entry =>
    simp only [bind_some, stepEntry]
    have hr1 := hst'.rebase uti.segbase hclean.base
    have hm : mem m {st' with dataOffset := uti.segbase} = m.setDataOffset uti.segbase := rfl
    obtain ⟨hf1, hf⟩ | ⟨fde, st'', hf1, hf, hst'', ho''⟩ := (parseFde_yields hr1 entry {} (hclean.found entry hr)).cases
    · rw [hm] at hf
      rw [hf1, hf]
      exact ⟨rfl, fun _ _ heq => nomatch heq⟩
    · rw [hm] at hf
      rw [hf1, hf]
      cases fde with
      | none =>
        refine ⟨rfl, fun out st1 heq => ?_⟩
        cases heq
        exact hst''
      | some fde =>
        have hmem'' : mem m st''=m.setDataOffset uti.segbase := by rw [mem, ho'']
        simp only [bind_some, hmem'']
        by_cases hc : covers fde pc
        · rw [if_pos hc, if_pos hc]
          cases parse (m.setDataOffset uti.segbase) pc fde fuel rs with
          | none => exact ⟨rfl, fun _ _ heq => nomatch heq⟩
          | some rs' =>
            refine ⟨rfl, fun out st1 heq => ?_⟩
            cases heq
            exact hst''
        · rw [if_neg hc, if_neg hc]
          refine ⟨rfl, fun out st1 heq => ?_⟩
          cases heq
          exact hst''

/-! ## Histories -/

/-- The states that clean calls lead to. -/
inductive Reached (m : DfxMemory) (bases : Word → Prop) : ParserState → Prop where
  | fresh (dataOffset : Word) (hbase : bases dataOffset) : Reached m bases (.fresh dataOffset)
  | parseFde {st st' : ParserState} (addr : Word) (out : Option FrameDescEntry)
      (h : Reached m bases st) (hsame : SameEntry m bases addr)
      (hrun : parseFde m st addr addr {} = some (out, st')) : Reached m bases st'
  | step {t : Target} {st st' : ParserState} (fuel : ℕ) (pc : Word) (uti : UnwindTableInfo)
      (rs : RegLocState t) (out : Option (RegLocState t)) (h : Reached m bases st)
      (hclean : CleanCall m bases st pc uti)
      (hrun : step m fuel st pc uti rs=some (out, st')) : Reached m bases st'

theorem Reached.coherent (h : Reached m bases st) : Coherent m bases st := by
  induction h with
  | fresh dataOffset hb => exact .fresh dataOffset hb
  | parseFde addr out h hs hrun ih => exact ((parseFde_yields ih addr {} hs).2 out _ hrun).1
  | step fuel pc uti rs out h hclean hrun ih => exact (step_spec ih fuel pc uti rs hclean).2 out _ hrun

/-- Whatever two parsers did before, they parse the same FDE at an address and take the same clean
step. -/
theorem parser_history_independent {t : Target} (st₁ st₂ : ParserState)
    (h₁ : Reached m bases st₁) (h₂ : Reached m bases st₂) :
    (∀ addr, SameEntry m bases addr → (parseFde m st₁ addr addr {}).map Prod.fst =
        (parseFde m st₂ addr addr {}).map Prod.fst) ∧
      ∀ (fuel : ℕ) (pc : Word) (uti : UnwindTableInfo) (rs : RegLocState t),
        CleanCall m bases st₁ pc uti → CleanCall m bases st₂ pc uti →
        (step m fuel st₁ pc uti rs).map Prod.fst = (step m fuel st₂ pc uti rs).map Prod.fst := by
  have hc₁ := h₁.coherent
  have hc₂ := h₂.coherent
  constructor
  · intro addr hs
    rw [(parseFde_yields hc₁ addr {} hs).1, (parseFde_yields hc₂ addr {} hs).1]
    exact hs.fde st₁.dataOffset st₂.dataOffset hc₁.base hc₂.base
  · intro fuel pc uti rs hc1₁ hc1₂
    rw [(step_spec hc₁ fuel pc uti rs hc1₁).1, (step_spec hc₂ fuel pc uti rs hc1₂).1]

theorem SameEntry.of_one (base addr : Word) : SameEntry m (·=base) addr where
  cie := fun _ _ hd hd' => by rw [hd, hd']
  fde := fun _ _ hd hd' => by rw [hd, hd']
  named := fun _ _ _ _ hd hd' => by rw [hd, hd']

/-! ## A CIE behind a signal frame -/

/-- A CIE with the augmentation "zS", one without, an FDE of the second, and a table for the FDE. -/
def twoCies : DfxMemory := .ofImage 0x1000
  [0x0c, 0, 0, 0, 0, 0, 0, 0, 1, 0x7a, 0x53, 0, 1, 0x78, 30, 0, 0x0c, 0, 0, 0, 0, 0, 0, 0, 1, 0, 1, 0x78, 30, 0, 0, 0,
    0x10, 0, 0, 0, 0x14, 0, 0, 0, 0, 1, 0, 0, 0, 1, 0, 0, 0x0c, 31, 16, 0, 0, 1, 0, 0, 0x20, 0x10, 0, 0]

def linearTable : UnwindTableInfo := ⟨0x1034, true, 0, 8, 0x1000⟩

def sortedTable : UnwindTableInfo := ⟨0, false, 0, 1, 0x1034⟩

def afterSorted : ParserState :=
  match step twoCies 10 (.fresh 0) 0x120 sortedTable ({} : RegLocState arm64) with
  | none => .fresh 0
  | some out => out.2

theorem afterSorted_reached : Reached twoCies (·=0) afterSorted := by
  have hr : (step twoCies 10 (.fresh 0) 0x120 sortedTable ({} : RegLocState arm64)).isSome := by
    decide
  obtain ⟨out, ho⟩ := isSome_iff_exists.mp hr
  have ha : afterSorted=out.2 := by rw [afterSorted, ho]
  rw [ha]
  exact .step 10 0x120 sortedTable {} out.1 (.fresh 0 rfl)
    ⟨rfl, (fun h => nomatch h), fun entry _ => .of_one 0 entry⟩ ho

theorem afterSorted_parses : (parseFde twoCies (.fresh 0) 0x1020 0x1020 {}).map Prod.fst =
      (parseFde twoCies afterSorted 0x1020 0x1020 {}).map Prod.fst := by
  have hf : Reached twoCies (· = 0) (.fresh 0) := .fresh 0 rfl
  exact (parser_history_independent (t := arm64) (.fresh 0) afterSorted hf
    afterSorted_reached).1 0x1020 (.of_one 0 0x1020)

/-- The scan hands the augmentation flag on to the second CIE, so it does not find the FDE, unless the
parser has seen that CIE before. -/
theorem twoCies_history : (step twoCies 10 (.fresh 0) 0x120 linearTable ({} : RegLocState arm64)).map Prod.fst ≠
      (step twoCies 10 afterSorted 0x120 linearTable ({} : RegLocState arm64)).map Prod.fst := by
  decide

end Faultloggerd.Dwarf

import LedgerZcash.Lib.Decimal
import LedgerZcash.Crypto.Stamps

/-!
# Derivation paths as text

A child index has its number in the low bits and the hardened flag in the highest one.  The
stamps set the flag by an offset; the parser shows the number and marks the hardened ones.
`readDerivationPath` reads such a text back, so the text says all that the path says
(`readDerivationPath_format`).  With it a stamp can be followed from the request through the
PCZT to what the device is told (`stampedPaths_readBack`).
-/

namespace LedgerZcash

open Hex Collect Decimal

/-! ## Reading a path -/

/-- The number of a child index, and whether it is hardened. -/
def pathComponent (i : Nat) : Nat × Bool := (i % hardenedOffset, i.testBit 31)

/-- The child index of a component. -/
def componentIndex (c : Nat × Bool) : Nat := if c.2 then hardened c.1 else c.1

/-- The apostrophe behind a hardened number. -/
def hardenedMark : Char := Char.ofNat 39

/-- Read a number below `2^31`, with the mark or without it. -/
def readComponent (cs : List Char) : Option (Nat × Bool) :=
  if cs.getLast? = some hardenedMark then
    ((readDigits cs.dropLast).filter (· < hardenedOffset)).map (·, true)
  else ((readDigits cs).filter (· < hardenedOffset)).map (·, false)

/-- Read a path: components between slashes, none in an empty text. -/
def readDerivationPath (s : String) : Option (List (Nat × Bool)) :=
  if s.toList = [] then some [] else (s.toList.splitOn '/').mapM readComponent

/-! ## Child indices -/

theorem hardenedOffset_add_self : hardenedOffset + hardenedOffset = u32Size := rfl

theorem hardened_lt {n : Nat} (h : n < hardenedOffset) : hardened n < u32Size := by
  rw [hardened, ← hardenedOffset_add_self]
  exact Nat.add_lt_add_right h _

theorem lt_u32Size {n : Nat} (h : n < hardenedOffset) : n < u32Size :=
  h.trans (hardenedOffset_add_self ▸ Nat.lt_add_of_pos_left (by decide))

theorem mod_lt_hardenedOffset (i : Nat) : i % hardenedOffset < hardenedOffset :=
  Nat.mod_lt _ (Nat.two_pow_pos 31)

/-- The flag of a `u32` is set from `2^31` on. -/
theorem testBit_iff {i : Nat} (h : i < u32Size) : i.testBit 31 = true ↔ hardenedOffset ≤ i := by
  rw [Nat.testBit_eq_decide_div_mod_eq, decide_eq_true_iff]
  simp only [hardenedOffset, u32Size] at h ⊢
  omega

theorem lt_of_testBit_eq_false {i : Nat} (h : i < u32Size) (hset : i.testBit 31 = false) :
    i < hardenedOffset := by
  by_contra hle
  rw [(testBit_iff h).mpr (Nat.not_lt.mp hle)] at hset
  cases hset

/-- A child index is given by its number and its flag. -/
theorem componentIndex_pathComponent {i : Nat} (h : i < u32Size) :
    componentIndex (pathComponent i) = i := by
  rw [componentIndex, pathComponent]
  cases hset : i.testBit 31 with
  | false =>
      rw [if_neg Bool.false_ne_true]
      exact Nat.mod_eq_of_lt (lt_of_testBit_eq_false h hset)
  | true =>
      have hle := (testBit_iff h).mp hset
      have hmod : i % hardenedOffset = i - hardenedOffset := by
        rw [Nat.mod_eq_sub_mod hle, Nat.mod_eq_of_lt]
        have := hardenedOffset_add_self
        omega
      rw [if_pos rfl, hardened, hmod, Nat.sub_add_cancel hle]

/-- An offset index is hardened. -/
theorem pathComponent_hardened {n : Nat} (h : n < hardenedOffset) :
    pathComponent (hardened n) = (n, true) := by
  refine Prod.ext ?_ ((testBit_iff (hardened_lt h)).mpr (Nat.le_add_left _ _))
  rw [pathComponent, hardened, Nat.add_mod_right, Nat.mod_eq_of_lt h]

/-- An index below the offset is not. -/
theorem pathComponent_of_lt {n : Nat} (h : n < hardenedOffset) : pathComponent n = (n, false) := by
  refine Prod.ext (Nat.mod_eq_of_lt h) (Bool.eq_false_iff.mpr fun hset ↦ ?_)
  exact absurd ((testBit_iff (lt_u32Size h)).mp hset) (Nat.not_le.mpr h)

/-! ## The text of a path -/

theorem toList_formatChildIndex {i : Nat} (h : i < u32Size) :
    (formatChildIndex i).toList =
      padded 0 (i % hardenedOffset) ++ if i.testBit 31 then [hardenedMark] else [] := by
  unfold formatChildIndex
  cases hset : i.testBit 31 with
  | false =>
      rw [if_neg Bool.false_ne_true, if_neg Bool.false_ne_true, List.append_nil,
        Nat.mod_eq_of_lt (lt_of_testBit_eq_false h hset), padded_zero]
  | true =>
      rw [if_pos rfl, if_pos rfl, String.toList_append, padded_zero]
      rfl

/-- The text of a child index reads back as its number and its flag. -/
theorem readComponent_format {i : Nat} (h : i < u32Size) :
    readComponent (formatChildIndex i).toList = some (pathComponent i) := by
  have hnumber : (readDigits (padded 0 (i % hardenedOffset))).filter (· < hardenedOffset) =
      some (i % hardenedOffset) := by
    rw [readDigits_padded, Option.filter_some, if_pos (decide_eq_true (mod_lt_hardenedOffset i))]
  rw [toList_formatChildIndex h, readComponent, pathComponent]
  cases hset : i.testBit 31 with
  | false =>
      have hlast : (padded 0 (i % hardenedOffset)).getLast? ≠ some hardenedMark :=
        fun heq ↦ notMem_padded (by decide) (List.mem_of_getLast? heq)
      rw [if_neg Bool.false_ne_true, List.append_nil, if_neg hlast, hnumber]
      rfl
  | true =>
      rw [if_pos rfl, List.getLast?_append, List.getLast?_singleton, Option.some_or, if_pos rfl,
        List.dropLast_concat, hnumber]
      rfl

theorem slash_notMem_format {i : Nat} (h : i < u32Size) : '/' ∉ (formatChildIndex i).toList := by
  rw [toList_formatChildIndex h, List.mem_append, not_or]
  refine ⟨notMem_padded (by decide), ?_⟩
  split
  · decide
  · exact List.not_mem_nil

theorem format_ne_nil {i : Nat} (h : i < u32Size) : (formatChildIndex i).toList ≠ [] := by
  rw [toList_formatChildIndex h]
  exact List.append_ne_nil_of_left_ne_nil (padded_ne_nil _ _) _

theorem toList_formatDerivationPath (path : List Nat) : (formatDerivationPath path).toList =
    List.intercalate ['/'] (path.map fun i ↦ (formatChildIndex i).toList) := by
  rw [formatDerivationPath, String.toList_intercalate, List.map_map]
  rfl

theorem mapM_readComponent {path : List Nat} (h : ∀ i ∈ path, i < u32Size) :
    (path.map fun i ↦ (formatChildIndex i).toList).mapM readComponent =
      some (path.map pathComponent) := by
  induction path with
  | nil => rfl
  | cons i rest ih =>
      obtain ⟨hi, hrest⟩ := List.forall_mem_cons.mp h
      rw [List.map_cons, List.mapM_cons, readComponent_format hi, ih hrest]
      rfl

theorem splitOn_formatDerivationPath {path : List Nat} (h : ∀ i ∈ path, i < u32Size)
    (hne : path ≠ []) : (formatDerivationPath path).toList.splitOn '/' =
      path.map fun i ↦ (formatChildIndex i).toList := by
  rw [toList_formatDerivationPath]
  refine List.splitOn_intercalate _ ?_ (mt List.map_eq_nil_iff.mp hne)
  exact List.forall_mem_map.mpr fun i hi ↦ slash_notMem_format (h i hi)

/-- The text of a path reads back as its components. -/
theorem readDerivationPath_format {path : List Nat} (h : ∀ i ∈ path, i < u32Size) :
    readDerivationPath (formatDerivationPath path) = some (path.map pathComponent) := by
  cases path with
  | nil => rfl
  | cons i rest =>
      have hsplit := splitOn_formatDerivationPath h (List.cons_ne_nil i rest)
      have htext : (formatDerivationPath (i :: rest)).toList ≠ [] := by
        intro hnil
        rw [hnil, List.splitOn_nil, List.map_cons] at hsplit
        exact format_ne_nil (h i List.mem_cons_self) (List.cons.inj hsplit).1.symm
      rw [readDerivationPath, if_neg htext, hsplit, mapM_readComponent h]

/-- The text says which child indices a path has. -/
theorem map_componentIndex {path : List Nat} (h : ∀ i ∈ path, i < u32Size) :
    (path.map pathComponent).map componentIndex = path := by
  rw [List.map_map]
  exact (List.map_congr_left fun i hi ↦ componentIndex_pathComponent (h i hi)).trans (List.map_id _)

/-- Two lists of child indices with the same text are the same list. -/
theorem formatDerivationPath_injOn :
    Set.InjOn formatDerivationPath {path | ∀ i ∈ path, i < u32Size} := by
  intro path h path' h' heq
  have hread := readDerivationPath_format h
  rw [heq, readDerivationPath_format h', Option.some_inj] at hread
  rw [← map_componentIndex h, ← hread, map_componentIndex h']

/-! ## Stamped paths -/

/-- `m/32'/coin_type'/account'`, component by component. -/
def accountComponents (network : AnyZcashNetwork) (accountIndex : Nat) : List (Nat × Bool) :=
  [(32, true), (stampedCoinType network, true), (accountIndex, true)]

/-- `m/44'/coin_type'/account'/scope/address_index`, component by component. -/
def addressComponents (network : AnyZcashNetwork) (accountIndex scope addressIndex : Nat) :
    List (Nat × Bool) :=
  [(44, true), (stampedCoinType network, true), (accountIndex, true), (scope, false),
    (addressIndex, false)]

section Paths

variable {network : AnyZcashNetwork} {accountIndex scope addressIndex : Nat} {path : List Nat}

theorem stampedCoinType_lt (network : AnyZcashNetwork) :
    stampedCoinType network < hardenedOffset := by
  cases network with
  | «local» _ => exact (by decide : Network.mainNetwork.coinType < hardenedOffset)
  | named n => cases n <;> decide

/-- The account path is refused for an account that cannot be hardened. -/
theorem zip32Path_eq_error (network : AnyZcashNetwork) (accountIndex : Nat) :
    (∃ e, zip32Path (stampedCoinType network) accountIndex = .error e) ↔
      hardenedOffset ≤ accountIndex := by
  unfold zip32Path
  split
  · rename_i h
    exact iff_of_true ⟨_, rfl⟩ h
  · rename_i h
    exact iff_of_false (fun ⟨_, he⟩ ↦ nomatch he) h

/-- The address path is refused when one of its components does not fit its place. -/
theorem bip44TransparentPath_eq_error (network : AnyZcashNetwork)
    (accountIndex scope addressIndex : Nat) :
    (∃ e, bip44TransparentPath (stampedCoinType network) accountIndex scope addressIndex =
      .error e) ↔
      hardenedOffset ≤ accountIndex ∨ hardenedOffset ≤ scope ∨ hardenedOffset ≤ addressIndex := by
  unfold bip44TransparentPath
  split
  · rename_i h
    exact iff_of_true ⟨_, rfl⟩ (.inl h)
  · rename_i haccount
    split
    · rename_i h
      exact iff_of_true ⟨_, rfl⟩ (.inr (.inl h))
    · rename_i hscope
      split
      · rename_i h
        exact iff_of_true ⟨_, rfl⟩ (.inr (.inr h))
      · rename_i haddress
        refine iff_of_false (fun ⟨_, he⟩ ↦ nomatch he) ?_
        rintro (h | h | h)
        · exact haccount h
        · exact hscope h
        · exact haddress h

/-- An accepted account path reads back as it was stamped. -/
theorem readDerivationPath_zip32Path
    (h : zip32Path (stampedCoinType network) accountIndex = .ok path) :
    readDerivationPath (formatDerivationPath path) =
      some (accountComponents network accountIndex) := by
  have haccount : accountIndex < hardenedOffset := by
    by_contra hle
    obtain ⟨e, he⟩ := (zip32Path_eq_error network accountIndex).mpr (Nat.not_lt.mp hle)
    cases he.symm.trans h
  have hcoin := stampedCoinType_lt network
  rw [zip32Path_eq_ok h, readDerivationPath_format]
  · simp only [List.map_cons, List.map_nil, pathComponent_hardened haccount,
      pathComponent_hardened hcoin, pathComponent_hardened (show 32 < hardenedOffset by decide)]
    rfl
  · simp only [List.forall_mem_cons]
    exact ⟨by decide, hardened_lt hcoin, hardened_lt haccount, fun _ h ↦ nomatch h⟩

/-- So does an accepted address path. -/
theorem readDerivationPath_bip44TransparentPath
    (h : bip44TransparentPath (stampedCoinType network) accountIndex scope addressIndex =
      .ok path) :
    readDerivationPath (formatDerivationPath path) =
      some (addressComponents network accountIndex scope addressIndex) := by
  have hlt : accountIndex < hardenedOffset ∧ scope < hardenedOffset ∧
      addressIndex < hardenedOffset := by
    by_contra hle
    obtain ⟨e, he⟩ := (bip44TransparentPath_eq_error network accountIndex scope
      addressIndex).mpr (by omega)
    cases he.symm.trans h
  obtain ⟨haccount, hscope, haddress⟩ := hlt
  have hcoin := stampedCoinType_lt network
  rw [bip44TransparentPath_eq_ok h, readDerivationPath_format]
  · simp only [List.map_cons, List.map_nil, pathComponent_hardened haccount,
      pathComponent_hardened hcoin, pathComponent_hardened (show 44 < hardenedOffset by decide),
      pathComponent_of_lt hscope, pathComponent_of_lt haddress]
    rfl
  · simp only [List.forall_mem_cons]
    exact ⟨by decide, hardened_lt hcoin, hardened_lt haccount, lt_u32Size hscope,
      lt_u32Size haddress, fun _ h ↦ nomatch h⟩

end Paths

/-! ## Through the PCZT -/

/-- The parser tells the device this path for an item. -/
def ParsedBip32Derivation.Shows (d : ParsedBip32Derivation) (components : List (Nat × Bool)) :
    Prop :=
  readDerivationPath d.signingPath = some components

/-- No transparent item has a derivation yet. -/
structure PcztView.Unstamped {Path : Type} {T : CraftTypes Path} (V : PcztView T) (p : T.Pczt) :
    Prop where
  inputs : ∀ x ∈ V.inputs p, x.bip32Derivation = ∅
  outputs : ∀ o ∈ V.outputs p, o.bip32Derivation = ∅

section Stamping

variable {Path : Type} {T : CraftTypes Path} {P : CraftUpstream T} {V : PcztView T}
  {i : BuildInputs T} {p p' : T.Pczt}

/-- The path of a transparent derivation reads back. -/
theorem readDerivationPath_transparentKey {scope addressIndex : Nat} {what : String}
    {d : Derivation} (h : transparentDerivation P i.network i.seedFingerprint i.accountIndex scope
      addressIndex what = .ok d) :
    readDerivationPath (formatDerivationPath (i.transparentKey scope addressIndex).path) =
      some (addressComponents i.network i.accountIndex scope addressIndex) := by
  obtain ⟨path, hpath, -⟩ := bind_eq_ok.mp h
  rw [← readDerivationPath_bip44TransparentPath hpath, bip44TransparentPath_eq_ok hpath]
  rfl

/-- A stamped action has the account path. -/
theorem PcztUpstream.actions_show (L : PcztUpstream P V) {pool : Pool}
    (h : stampActions P pool p i.network i.seedFingerprint i.accountIndex = .ok p')
    {a : PcztAction} (ha : a ∈ V.actions pool p') : ∃ d, a.zip32Derivation = some d ∧
      readDerivationPath (formatDerivationPath d.path) =
        some (accountComponents i.network i.accountIndex) := by
  obtain ⟨path, hpath, -⟩ := bind_eq_ok.mp h
  refine ⟨i.spendKey, (L.stampActions_ok h).2.1 a ha, ?_⟩
  rw [← readDerivationPath_zip32Path hpath, zip32Path_eq_ok hpath]
  rfl

/-- A stamped input is told its own path. -/
theorem PcztUpstream.inputs_show (L : PcztUpstream P V) {change : Option ChangeStamp}
    (hnone : ∀ x ∈ V.inputs p, x.bip32Derivation = ∅)
    (hlen : i.transparentInputs.length = (V.inputs p).length)
    (h : stampTransparentDerivations P p i.network i.seedFingerprint i.accountIndex
      i.transparentInputs change = .ok p') :
    List.Forall₂ (fun tin input ↦ ∃ parsed, convertTransparentInput input = .ok parsed ∧
      parsed.derivation.Shows (addressComponents i.network i.accountIndex tin.derivationScope
        tin.derivationAddressIndex)) i.transparentInputs (V.inputs p') := by
  obtain ⟨ds, hds, -⟩ := bind_eq_ok.mp h
  have hpaths := mapM_eq_ok_iff.mp hds
  rw [(L.stampTransparentDerivations_ok h hlen).2.1]
  refine forall₂_zipWith hlen fun tin htin input hinput ↦ ?_
  obtain ⟨n, hn⟩ := List.mem_iff_getElem?.mp htin
  obtain ⟨_, -, hd⟩ := exists_getElem?_of_forall₂ hpaths hn
  obtain ⟨d, hd, -⟩ := bind_eq_ok.mp hd
  have hderivation : (i.stampedInput tin input).bip32Derivation = AList.singleton tin.pubkey
      (i.transparentKey tin.derivationScope tin.derivationAddressIndex) := by
    show input.bip32Derivation.insert _ _ = _
    rw [hnone input hinput, AList.insert_empty]
  rw [convertTransparentInput, hderivation, singleDerivation_singleton]
  exact ⟨_, rfl, readDerivationPath_transparentKey hd⟩

/-- The stamped change is told the path of the change key. -/
theorem PcztUpstream.change_shows (L : PcztUpstream P V) {stamp : ChangeStamp}
    (hnone : ∀ o ∈ V.outputs p, o.bip32Derivation = ∅)
    (hlen : i.transparentInputs.length = (V.inputs p).length)
    (h : stampTransparentDerivations P p i.network i.seedFingerprint i.accountIndex
      i.transparentInputs (some stamp) = .ok p') {output : PcztOutput}
    (houtput : (V.outputs p')[stamp.index]? = some output) :
    ∃ parsed d, convertTransparentOutput output = .ok parsed ∧ parsed.derivation = some d ∧
      d.Shows (addressComponents i.network i.accountIndex transparentInternalScope
        stamp.addressIndex) := by
  obtain ⟨ds, -, hrest⟩ := bind_eq_ok.mp h
  obtain ⟨change, hchange, -⟩ := bind_eq_ok.mp hrest
  obtain ⟨d, hd, -⟩ := bind_eq_ok.mp hchange
  rw [(L.stampTransparentDerivations_ok h hlen).2.2] at houtput
  obtain ⟨o, ho, rfl⟩ := Option.map_eq_some_iff.mp
    ((List.getElem?_modify_eq _ stamp.index (V.outputs p)).symm.trans houtput)
  have hderivation : (o.setDerivation stamp.pubkey (i.transparentKey transparentInternalScope
      stamp.addressIndex)).bip32Derivation = AList.singleton stamp.pubkey
        (i.transparentKey transparentInternalScope stamp.addressIndex) := by
    show o.bip32Derivation.insert _ _ = _
    rw [hnone o (List.mem_of_getElem? ho), AList.insert_empty]
  rw [convertTransparentOutput, hderivation, singleDerivation_singleton]
  exact ⟨_, _, rfl, rfl, readDerivationPath_transparentKey hd⟩

/-- What is stamped into a PCZT is what its text says: every action has the account path, every
transparent input its own and the change that of the change key, and no two lists of child
indices have the same text.  Only a component that does not fit its place is refused. -/
theorem stampedPaths_readBack (L : PcztUpstream P V) (i : BuildInputs T) :
    (∀ pool p p', stampActions P pool p i.network i.seedFingerprint i.accountIndex = .ok p' →
      ∀ a ∈ V.actions pool p', ∃ d, a.zip32Derivation = some d ∧
        readDerivationPath (formatDerivationPath d.path) =
          some (accountComponents i.network i.accountIndex)) ∧
    (∀ p p' change, V.Unstamped p → i.transparentInputs.length = (V.inputs p).length →
      stampTransparentDerivations P p i.network i.seedFingerprint i.accountIndex
        i.transparentInputs change = .ok p' →
      List.Forall₂ (fun tin input ↦ ∃ parsed, convertTransparentInput input = .ok parsed ∧
        parsed.derivation.Shows (addressComponents i.network i.accountIndex tin.derivationScope
          tin.derivationAddressIndex)) i.transparentInputs (V.inputs p') ∧
      ∀ stamp output, change = some stamp → (V.outputs p')[stamp.index]? = some output →
        ∃ parsed d, convertTransparentOutput output = .ok parsed ∧ parsed.derivation = some d ∧
          d.Shows (addressComponents i.network i.accountIndex transparentInternalScope
            stamp.addressIndex)) ∧
    (∀ network accountIndex, (∃ e, zip32Path (stampedCoinType network) accountIndex = .error e) ↔
      hardenedOffset ≤ accountIndex) ∧
    (∀ network accountIndex scope addressIndex,
      (∃ e, bip44TransparentPath (stampedCoinType network) accountIndex scope addressIndex =
        .error e) ↔
      hardenedOffset ≤ accountIndex ∨ hardenedOffset ≤ scope ∨ hardenedOffset ≤ addressIndex) ∧
    (∀ path, (∀ i ∈ path, i < u32Size) →
      readDerivationPath (formatDerivationPath path) = some (path.map pathComponent) ∧
      (path.map pathComponent).map componentIndex = path) ∧
    Set.InjOn formatDerivationPath {path | ∀ i ∈ path, i < u32Size} := by
  refine ⟨fun pool p p' h a ha ↦ L.actions_show h ha, ?_, zip32Path_eq_error,
    bip44TransparentPath_eq_error, fun path h ↦ ⟨readDerivationPath_format h, map_componentIndex h⟩,
    formatDerivationPath_injOn⟩
  intro p p' change hnone hlen h
  refine ⟨L.inputs_show hnone.inputs hlen h, ?_⟩
  rintro stamp output rfl houtput
  exact L.change_shows hnone.outputs hlen h houtput

end Stamping

/-- The sample payment before it is stamped. -/
def sampleUnstamped : PcztRecord where
  inputs := [(recordInput ⟨fill 32 3, 0, 51000⟩, none)]
  outputs := [recordOutput (recordScript 6, 7000), recordOutput (recordScript 6, 20000)]
  orchard := List.replicate 2 ⟨none, none⟩
  ironwood := []

/-- The sample payment with its transparent stamps. -/
def sampleTransparentStamped : PcztRecord :=
  { sampleStamped .orchard with orchard := List.replicate 2 ⟨none, none⟩ }

/-- The change of the sample payment. -/
theorem stampedPaths_readBack_change : ∃ parsed d,
    convertTransparentOutput { recordOutput (recordScript 6, 20000) with
      bip32Derivation := AList.singleton (fill 33 4) sampleChangeKey } = .ok parsed ∧
    parsed.derivation = some d ∧
    d.Shows [(44, true), (1, true), (0, true), (1, false), (7, false)] :=
  ((stampedPaths_readBack recording_pcztUpstream samplePublicPayment).2.1 sampleUnstamped
    sampleTransparentStamped (some ⟨1, fill 33 4, 7⟩)
    ⟨List.forall_mem_singleton.mpr rfl, List.forall_mem_cons.mpr
      ⟨rfl, List.forall_mem_singleton.mpr rfl⟩⟩ rfl rfl).2 _ _ rfl rfl

end LedgerZcash

/-
The parameter check of the display blitter (hwcomposer/sc8830/gsp_hal.cpp).

- The configuration has the fields the checks read. Geometry and pitches are 32-bit words; of the rotations, `other`
  stands for what is not below GSP_ROT_ANGLE_MAX_NUM; the numbers of the destination formats are a parameter (`DstFmt`,
  they stand in a header outside the source);
- `gsp_hal_params_check` and the four checks it calls; the scale factors are exact, with the zero divisor of IEEE 754;
- `Sound`: what the hardware is promised of an accepted configuration; `Checked`: what the checks leave out.
Result: `gsp_hal_params_check_iff`, an accepted configuration is sound exactly when it has what the checks leave out.
-/
import Mathlib.Tactic
import SprdDevice.Lib.Ieee

namespace SprdDevice.Display.Gsp

open SprdDevice.Ieee

inductive GspErr where
  | GSP_NO_ERR
  | GSP_HAL_PARAM_CHECK_ERR
deriving DecidableEq, Repr

inductive GSP_ROT_ANGLE where
  | ROT_0
  | ROT_90
  | ROT_180
  | ROT_270
  | ROT_0_M
  | ROT_90_M
  | ROT_180_M
  | ROT_270_M
  | other
deriving DecidableEq, Repr

structure GSP_RECT where
  st_x : UInt32
  st_y : UInt32
  rect_w : UInt32
  rect_h : UInt32
deriving DecidableEq, Repr

structure GSP_POS_PT where
  pos_pt_x : UInt32
  pos_pt_y : UInt32
deriving DecidableEq, Repr

structure GSP_LAYER0_CONFIG_INFO where
  layer_en : UInt32
  clip_rect : GSP_RECT
  des_rect : GSP_RECT
  pitch : UInt32
  rot_angle : GSP_ROT_ANGLE
deriving DecidableEq, Repr

structure GSP_LAYER1_CONFIG_INFO where
  layer_en : UInt32
  clip_rect : GSP_RECT
  des_pos : GSP_POS_PT
  pitch : UInt32
  rot_angle : GSP_ROT_ANGLE
deriving DecidableEq, Repr

structure GSP_LAYER_DES_CONFIG_INFO where
  pitch : UInt32
  img_format : ℕ
  compress_r8_en : UInt32
deriving DecidableEq, Repr

structure GSP_MISC_CONFIG_INFO where
  gsp_clock : UInt32
  ahb_clock : UInt32
deriving DecidableEq, Repr

structure GSP_CONFIG_INFO where
  layer0_info : GSP_LAYER0_CONFIG_INFO
  layer1_info : GSP_LAYER1_CONFIG_INFO
  layer_des_info : GSP_LAYER_DES_CONFIG_INFO
  misc_info : GSP_MISC_CONFIG_INFO
deriving DecidableEq, Repr

structure DstFmt where
  YUV420_2P : ℕ
  YUV422_2P : ℕ
  RGB888 : ℕ

/-! ## The checks -/

/-- GSP_ROT_ANGLE_90, _270, _90_M or _270_M -/
def turned (a : GSP_ROT_ANGLE) : Prop := a = .ROT_90 ∨ a = .ROT_270 ∨ a = .ROT_90_M ∨ a = .ROT_270_M

/-- GSP_ROT_ANGLE_0, _180, _0_M or _180_M -/
def upright (a : GSP_ROT_ANGLE) : Prop := a = .ROT_0 ∨ a = .ROT_180 ∨ a = .ROT_0_M ∨ a = .ROT_180_M

instance (a : GSP_ROT_ANGLE) : Decidable (turned a) := inferInstanceAs (Decidable (_ ∨ _))

instance (a : GSP_ROT_ANGLE) : Decidable (upright a) := inferInstanceAs (Decidable (_ ∨ _))

def coef_factor_w (l : GSP_LAYER0_CONFIG_INFO) : Value :=
  if turned l.rot_angle then div l.clip_rect.rect_h.toNat l.des_rect.rect_w.toNat
  else div l.clip_rect.rect_w.toNat l.des_rect.rect_w.toNat

def coef_factor_h (l : GSP_LAYER0_CONFIG_INFO) : Value :=
  if turned l.rot_angle then div l.clip_rect.rect_w.toNat l.des_rect.rect_h.toNat
  else div l.clip_rect.rect_h.toNat l.des_rect.rect_h.toNat

def gsp_hal_layer0_params_check (l : GSP_LAYER0_CONFIG_INFO) : GspErr :=
  if l.layer_en = 0 then .GSP_NO_ERR
  else if l.clip_rect.st_x &&& 1 ≠ 0 ∨ l.clip_rect.st_y &&& 1 ≠ 0 ∨ l.clip_rect.rect_w &&& 1 ≠ 0 ∨
      l.clip_rect.rect_h &&& 1 ≠ 0 ∨ l.des_rect.st_x &&& 1 ≠ 0 ∨ l.des_rect.st_y &&& 1 ≠ 0 ∨
      l.des_rect.rect_w &&& 1 ≠ 0 ∨ l.des_rect.rect_h &&& 1 ≠ 0 then
    .GSP_HAL_PARAM_CHECK_ERR
  else if l.pitch &&& 0xfffff000 ≠ 0 ∨ l.clip_rect.st_x + l.clip_rect.rect_w > l.pitch ∨
      (l.clip_rect.st_y + l.clip_rect.rect_h) &&& 0xfffff000 ≠ 0 then
    .GSP_HAL_PARAM_CHECK_ERR
  else if (l.des_rect.st_x + l.des_rect.rect_w) &&& 0xfffff000 ≠ 0 ∨
      (l.des_rect.st_y + l.des_rect.rect_h) &&& 0xfffff000 ≠ 0 then
    .GSP_HAL_PARAM_CHECK_ERR
  else if l.rot_angle = .other then .GSP_HAL_PARAM_CHECK_ERR
  else if Lt (coef_factor_w l) (1 / 4) ∨ Lt (coef_factor_h l) (1 / 4) ∨ Gt (coef_factor_w l) 16 ∨
      Gt (coef_factor_h l) 16 ∨ (Gt (coef_factor_w l) 1 ∧ Lt (coef_factor_h l) 1) ∨
      (Gt (coef_factor_h l) 1 ∧ Lt (coef_factor_w l) 1) then
    .GSP_HAL_PARAM_CHECK_ERR
  else .GSP_NO_ERR

def gsp_hal_layer1_params_check (l : GSP_LAYER1_CONFIG_INFO) : GspErr :=
  if l.layer_en = 0 then .GSP_NO_ERR
  else if l.clip_rect.st_x &&& 1 ≠ 0 ∨ l.clip_rect.st_y &&& 1 ≠ 0 ∨ l.clip_rect.rect_w &&& 1 ≠ 0 ∨
      l.clip_rect.rect_h &&& 1 ≠ 0 ∨ l.des_pos.pos_pt_x &&& 1 ≠ 0 ∨ l.des_pos.pos_pt_y &&& 1 ≠ 0 then
    .GSP_HAL_PARAM_CHECK_ERR
  -- four bits of the pitch, where layer 0 has twenty
  else if l.pitch &&& 0xf000 ≠ 0 ∨ l.clip_rect.st_x + l.clip_rect.rect_w > l.pitch ∨
      (l.clip_rect.st_y + l.clip_rect.rect_h) &&& 0xfffff000 ≠ 0 then
    .GSP_HAL_PARAM_CHECK_ERR
  else if l.rot_angle = .other then .GSP_HAL_PARAM_CHECK_ERR
  else .GSP_NO_ERR

def gsp_hal_misc_params_check (m : GSP_MISC_CONFIG_INFO) : GspErr :=
  if m.gsp_clock &&& ~~~3 ≠ 0 ∨ m.ahb_clock &&& ~~~3 ≠ 0 then .GSP_HAL_PARAM_CHECK_ERR else .GSP_NO_ERR

def gsp_hal_layerdes_params_check (fmt : DstFmt) (c : GSP_CONFIG_INFO) : GspErr :=
  let l0 := c.layer0_info
  let l1 := c.layer1_info
  let des := c.layer_des_info
  if l0.layer_en = 0 ∧ l1.layer_en = 0 then .GSP_HAL_PARAM_CHECK_ERR
  else if des.pitch &&& 0xfffff000 ≠ 0 then .GSP_HAL_PARAM_CHECK_ERR
  else if l0.layer_en = 1 ∧ l0.des_rect.st_x + l0.des_rect.rect_w > des.pitch then .GSP_HAL_PARAM_CHECK_ERR
  else if l1.layer_en = 1 ∧ ((l1.des_pos.pos_pt_x + l1.clip_rect.rect_w > des.pitch ∧ upright l1.rot_angle) ∨
      (l1.des_pos.pos_pt_x + l1.clip_rect.rect_h > des.pitch ∧ turned l1.rot_angle)) then
    .GSP_HAL_PARAM_CHECK_ERR
  else if (fmt.YUV420_2P ≤ des.img_format ∧ des.img_format ≤ fmt.YUV422_2P) ∧
      (l0.des_rect.st_x &&& 1 ≠ 0 ∨ l0.des_rect.st_y &&& 1 ≠ 0 ∨ l1.des_pos.pos_pt_x &&& 1 ≠ 0 ∨
        l1.des_pos.pos_pt_y &&& 1 ≠ 0) then
    .GSP_HAL_PARAM_CHECK_ERR
  else if des.compress_r8_en = 1 ∧ des.img_format ≠ fmt.RGB888 then .GSP_HAL_PARAM_CHECK_ERR
  else .GSP_NO_ERR

def gsp_hal_params_check (fmt : DstFmt) (c : GSP_CONFIG_INFO) : GspErr :=
  if gsp_hal_layer0_params_check c.layer0_info ≠ .GSP_NO_ERR ∨
      gsp_hal_layer1_params_check c.layer1_info ≠ .GSP_NO_ERR ∨
      gsp_hal_misc_params_check c.misc_info ≠ .GSP_NO_ERR ∨ gsp_hal_layerdes_params_check fmt c ≠ .GSP_NO_ERR then
    .GSP_HAL_PARAM_CHECK_ERR
  else .GSP_NO_ERR

/-! ## What an accepted configuration promises -/

/-- the pixels of a rectangle lie in the columns below cols and the rows below rows, as numbers -/
def Inside (x y w h : UInt32) (cols rows : ℕ) : Prop := x.toNat + w.toNat ≤ cols ∧ y.toNat + h.toNat ≤ rows

structure Layer0Sound (l : GSP_LAYER0_CONFIG_INFO) (despitch : UInt32) : Prop where
  nonempty : l.clip_rect.rect_w ≠ 0 ∧ l.clip_rect.rect_h ≠ 0
  pitch : l.pitch.toNat ≤ 4095
  source : Inside l.clip_rect.st_x l.clip_rect.st_y l.clip_rect.rect_w l.clip_rect.rect_h l.pitch.toNat 4096
  destination : Inside l.des_rect.st_x l.des_rect.st_y l.des_rect.rect_w l.des_rect.rect_h despitch.toNat 4096
  scale_w : Between (coef_factor_w l) (1 / 4) 16
  scale_h : Between (coef_factor_h l) (1 / 4) 16

/-- the sides of the destination of layer 1 -/
def desW (l : GSP_LAYER1_CONFIG_INFO) : UInt32 :=
  if turned l.rot_angle then l.clip_rect.rect_h else l.clip_rect.rect_w

def desH (l : GSP_LAYER1_CONFIG_INFO) : UInt32 :=
  if turned l.rot_angle then l.clip_rect.rect_w else l.clip_rect.rect_h

structure Layer1Sound (l : GSP_LAYER1_CONFIG_INFO) (despitch : UInt32) : Prop where
  nonempty : l.clip_rect.rect_w ≠ 0 ∧ l.clip_rect.rect_h ≠ 0
  pitch : l.pitch.toNat ≤ 4095
  source : Inside l.clip_rect.st_x l.clip_rect.st_y l.clip_rect.rect_w l.clip_rect.rect_h l.pitch.toNat 4096
  destination : Inside l.des_pos.pos_pt_x l.des_pos.pos_pt_y (desW l) (desH l) despitch.toNat 4096

structure Sound (c : GSP_CONFIG_INFO) : Prop where
  layer0 : c.layer0_info.layer_en = 1 → Layer0Sound c.layer0_info c.layer_des_info.pitch
  layer1 : c.layer1_info.layer_en = 1 → Layer1Sound c.layer1_info c.layer_des_info.pitch

/-! ## What the checks leave out -/

/-- the sum of the two words is below 2^32 -/
def NoWrap (a b : UInt32) : Prop := a.toNat + b.toNat < 2 ^ 32

instance (a b : UInt32) : Decidable (NoWrap a b) := inferInstanceAs (Decidable (_ < _))

structure Layer0Checked (l : GSP_LAYER0_CONFIG_INFO) : Prop where
  sides : l.des_rect.rect_w ≠ 0 ∧ l.des_rect.rect_h ≠ 0
  clip_x : NoWrap l.clip_rect.st_x l.clip_rect.rect_w
  clip_y : NoWrap l.clip_rect.st_y l.clip_rect.rect_h
  des_x : NoWrap l.des_rect.st_x l.des_rect.rect_w
  des_y : NoWrap l.des_rect.st_y l.des_rect.rect_h

structure Layer1Checked (l : GSP_LAYER1_CONFIG_INFO) : Prop where
  sides : l.clip_rect.rect_w ≠ 0 ∧ l.clip_rect.rect_h ≠ 0
  pitch : l.pitch.toNat < 2 ^ 16
  clip_x : NoWrap l.clip_rect.st_x l.clip_rect.rect_w
  clip_y : NoWrap l.clip_rect.st_y l.clip_rect.rect_h
  des_x : NoWrap l.des_pos.pos_pt_x (desW l)
  des_y : l.des_pos.pos_pt_y.toNat + (desH l).toNat ≤ 4096

structure Checked (c : GSP_CONFIG_INFO) : Prop where
  layer0 : c.layer0_info.layer_en = 1 → Layer0Checked c.layer0_info
  layer1 : c.layer1_info.layer_en = 1 → Layer1Checked c.layer1_info

/-! ## The masks -/

/-- a number below 2^(n+k) with none of the k bits from bit n on -/
theorem lt_of_land_high {x k n : ℕ} (hx : x < 2 ^ (n + k)) (h : x &&& (2 ^ k - 1) <<< n = 0) : x < 2 ^ n := by
  have hshift : (x &&& (2 ^ k - 1) <<< n) >>> n = x >>> n % 2 ^ k := by
    rw [Nat.shiftRight_and_distrib, Nat.shiftLeft_shiftRight, Nat.and_two_pow_sub_one_eq_mod]
  have hsmall : x >>> n < 2 ^ k := by
    rw [Nat.shiftRight_eq_div_pow]
    exact Nat.div_lt_of_lt_mul (by rwa [← pow_add])
  rw [h, Nat.zero_shiftRight, Nat.mod_eq_of_lt hsmall, Nat.shiftRight_eq_div_pow] at hshift
  exact Nat.lt_of_div_eq_zero (by positivity) hshift.symm

theorem lt_of_mask {x m : UInt32} {k : ℕ} (hm : m.toNat = (2 ^ k - 1) <<< 12) (hx : x.toNat < 2 ^ (12 + k))
    (h : x &&& m = 0) : x.toNat < 4096 := by
  have hnat : x.toNat &&& (2 ^ k - 1) <<< 12 = 0 := by
    rw [← hm, ← UInt32.toNat_and, h]
    rfl
  exact lt_of_land_high hx hnat

theorem lt_of_high {x : UInt32} (h : x &&& 0xfffff000 = 0) : x.toNat < 4096 :=
  @lt_of_mask x _ 20 rfl x.toNat_lt h

theorem lt_of_nibble {x : UInt32} (h : x &&& 0xf000 = 0) (hx : x.toNat < 2 ^ 16) : x.toNat < 4096 :=
  @lt_of_mask x _ 4 rfl hx h

theorem toNat_add_of_noWrap {a b : UInt32} (h : NoWrap a b) : (a + b).toNat = a.toNat + b.toNat := by
  rw [UInt32.toNat_add, Nat.mod_eq_of_lt h]

theorem le_of_not_gt {a b : UInt32} (h : ¬ a > b) : a.toNat ≤ b.toNat := Nat.not_lt.mp fun hlt => h hlt

/-! ## What acceptance says -/

/-- a check that is passed -/
theorem check_ok {P : Prop} [Decidable P] {e : GspErr} :
    (if P then .GSP_HAL_PARAM_CHECK_ERR else e) = .GSP_NO_ERR ↔ ¬ P ∧ e = .GSP_NO_ERR := by
  by_cases h : P <;> simp [h]

/-- layer 0 of an accepted configuration -/
structure Layer0Accepted (l : GSP_LAYER0_CONFIG_INFO) (despitch : UInt32) : Prop where
  pitch : l.pitch.toNat < 4096
  clip_x : (l.clip_rect.st_x + l.clip_rect.rect_w).toNat ≤ l.pitch.toNat
  clip_y : (l.clip_rect.st_y + l.clip_rect.rect_h).toNat < 4096
  des_x : (l.des_rect.st_x + l.des_rect.rect_w).toNat ≤ despitch.toNat
  des_y : (l.des_rect.st_y + l.des_rect.rect_h).toNat < 4096
  scale_w : ¬ Lt (coef_factor_w l) (1 / 4) ∧ ¬ Gt (coef_factor_w l) 16
  scale_h : ¬ Lt (coef_factor_h l) (1 / 4) ∧ ¬ Gt (coef_factor_h l) 16

/-- layer 1 of an accepted configuration -/
structure Layer1Accepted (l : GSP_LAYER1_CONFIG_INFO) (despitch : UInt32) : Prop where
  pitch : l.pitch &&& 0xf000 = 0
  clip_x : (l.clip_rect.st_x + l.clip_rect.rect_w).toNat ≤ l.pitch.toNat
  clip_y : (l.clip_rect.st_y + l.clip_rect.rect_h).toNat < 4096
  des_x : (l.des_pos.pos_pt_x + desW l).toNat ≤ despitch.toNat

section Accepted

variable {fmt : DstFmt} {c : GSP_CONFIG_INFO}

theorem gsp_hal_params_check_ok (h : gsp_hal_params_check fmt c = .GSP_NO_ERR) :
    gsp_hal_layer0_params_check c.layer0_info = .GSP_NO_ERR ∧
      gsp_hal_layer1_params_check c.layer1_info = .GSP_NO_ERR ∧
      gsp_hal_layerdes_params_check fmt c = .GSP_NO_ERR := by
  rw [gsp_hal_params_check, check_ok, not_or, not_or, not_or] at h
  obtain ⟨⟨h0, h1, -, hdes⟩, -⟩ := h
  exact ⟨not_not.mp h0, not_not.mp h1, not_not.mp hdes⟩

/-- the sums the destination is checked with -/
theorem layerdes_ok (h : gsp_hal_layerdes_params_check fmt c = .GSP_NO_ERR) :
    c.layer_des_info.pitch.toNat < 4096 ∧
      (c.layer0_info.layer_en = 1 → (c.layer0_info.des_rect.st_x + c.layer0_info.des_rect.rect_w).toNat ≤
        c.layer_des_info.pitch.toNat) ∧
      (c.layer1_info.layer_en = 1 → c.layer1_info.rot_angle ≠ .other →
        (c.layer1_info.des_pos.pos_pt_x + desW c.layer1_info).toNat ≤ c.layer_des_info.pitch.toNat) := by
  simp only [gsp_hal_layerdes_params_check, check_ok] at h
  obtain ⟨-, hpitch, h0, h1, -⟩ := h
  refine ⟨lt_of_high (not_not.mp hpitch), fun hen => le_of_not_gt fun hgt => h0 ⟨hen, hgt⟩, fun hen hrot => ?_⟩
  refine le_of_not_gt fun hgt => h1 ⟨hen, ?_⟩
  by_cases ht : turned c.layer1_info.rot_angle
  · rw [desW, if_pos ht] at hgt
    exact Or.inr ⟨hgt, ht⟩
  · have hup : upright c.layer1_info.rot_angle := by
      revert ht hrot
      cases c.layer1_info.rot_angle <;> decide
    rw [desW, if_neg ht] at hgt
    exact Or.inl ⟨hgt, hup⟩

theorem layer0_accepted (h : gsp_hal_params_check fmt c = .GSP_NO_ERR) (hen : c.layer0_info.layer_en = 1) :
    Layer0Accepted c.layer0_info c.layer_des_info.pitch := by
  obtain ⟨h0, -, hdes⟩ := gsp_hal_params_check_ok h
  have hen0 : c.layer0_info.layer_en ≠ 0 := by
    rw [hen]
    decide
  simp only [gsp_hal_layer0_params_check, if_neg hen0, check_ok, not_or, not_not] at h0
  obtain ⟨-, ⟨hpitch, hx, hy⟩, ⟨-, hdy⟩, -, ⟨hlw, hlh, hgw, hgh, -⟩, -⟩ := h0
  exact ⟨lt_of_high hpitch, le_of_not_gt hx, lt_of_high hy, (layerdes_ok hdes).2.1 hen, lt_of_high hdy, ⟨hlw, hgw⟩,
    ⟨hlh, hgh⟩⟩

theorem layer1_accepted (h : gsp_hal_params_check fmt c = .GSP_NO_ERR) (hen : c.layer1_info.layer_en = 1) :
    Layer1Accepted c.layer1_info c.layer_des_info.pitch := by
  obtain ⟨-, h1, hdes⟩ := gsp_hal_params_check_ok h
  have hen1 : c.layer1_info.layer_en ≠ 0 := by
    rw [hen]
    decide
  simp only [gsp_hal_layer1_params_check, if_neg hen1, check_ok, not_or, not_not] at h1
  obtain ⟨-, ⟨hpitch, hx, hy⟩, hrot, -⟩ := h1
  exact ⟨hpitch, le_of_not_gt hx, lt_of_high hy, (layerdes_ok hdes).2.2 hen hrot⟩

end Accepted

/-! ## The layers -/

theorem toNat_ne_zero {x : UInt32} : x.toNat ≠ 0 ↔ x ≠ 0 := by
  rw [Ne, Ne, ← UInt32.toNat_inj]
  rfl

/-- a factor in the range, of sides none of which is zero -/
theorem sides_of_between {a b : ℕ} (h : Between (div a b) (1 / 4) 16) : a ≠ 0 ∧ b ≠ 0 := by
  obtain ⟨hb, hlo, -⟩ := between_div_iff.mp h
  refine ⟨fun ha => ?_, hb⟩
  rw [ha, Nat.cast_zero, zero_div] at hlo
  norm_num at hlo

theorem between_of_accepted {a b : ℕ} (h : ¬ Lt (div a b) (1 / 4) ∧ ¬ Gt (div a b) 16) (hb : b ≠ 0) :
    Between (div a b) (1 / 4) 16 := (div_range_iff.mp h).resolve_left fun h0 => hb h0.2

section Layer0

variable {l : GSP_LAYER0_CONFIG_INFO} {despitch : UInt32}

/-- the sides of layer 0 are not zero when both factors are in the range -/
theorem layer0_sides (hw : Between (coef_factor_w l) (1 / 4) 16) (hh : Between (coef_factor_h l) (1 / 4) 16) :
    (l.clip_rect.rect_w ≠ 0 ∧ l.clip_rect.rect_h ≠ 0) ∧ l.des_rect.rect_w ≠ 0 ∧ l.des_rect.rect_h ≠ 0 := by
  unfold coef_factor_w at hw
  unfold coef_factor_h at hh
  split_ifs at hw hh
  · obtain ⟨hw1, hw2⟩ := sides_of_between hw
    obtain ⟨hh1, hh2⟩ := sides_of_between hh
    exact ⟨⟨toNat_ne_zero.mp hh1, toNat_ne_zero.mp hw1⟩, toNat_ne_zero.mp hw2, toNat_ne_zero.mp hh2⟩
  · obtain ⟨hw1, hw2⟩ := sides_of_between hw
    obtain ⟨hh1, hh2⟩ := sides_of_between hh
    exact ⟨⟨toNat_ne_zero.mp hw1, toNat_ne_zero.mp hh1⟩, toNat_ne_zero.mp hw2, toNat_ne_zero.mp hh2⟩

theorem coef_factor_w_between (h : Layer0Accepted l despitch) (hside : l.des_rect.rect_w ≠ 0) :
    Between (coef_factor_w l) (1 / 4) 16 := by
  have hs := h.scale_w
  unfold coef_factor_w at hs ⊢
  split_ifs at hs ⊢
  · exact between_of_accepted hs (toNat_ne_zero.mpr hside)
  · exact between_of_accepted hs (toNat_ne_zero.mpr hside)

theorem coef_factor_h_between (h : Layer0Accepted l despitch) (hside : l.des_rect.rect_h ≠ 0) :
    Between (coef_factor_h l) (1 / 4) 16 := by
  have hs := h.scale_h
  unfold coef_factor_h at hs ⊢
  split_ifs at hs ⊢
  · exact between_of_accepted hs (toNat_ne_zero.mpr hside)
  · exact between_of_accepted hs (toNat_ne_zero.mpr hside)

theorem layer0_sound_iff (h : Layer0Accepted l despitch) (hd : despitch.toNat < 4096) :
    Layer0Sound l despitch ↔ Layer0Checked l := by
  constructor
  · intro hs
    have hp := h.pitch
    have hcx := hs.source.1
    have hcy := hs.source.2
    have hdx := hs.destination.1
    have hdy := hs.destination.2
    refine ⟨(layer0_sides hs.scale_w hs.scale_h).2, ?_, ?_, ?_, ?_⟩
    · exact hcx.trans_lt (by omega)
    · exact hcy.trans_lt (by decide)
    · exact hdx.trans_lt (by omega)
    · exact hdy.trans_lt (by decide)
  · intro hc
    have hw := coef_factor_w_between h hc.sides.1
    have hh := coef_factor_h_between h hc.sides.2
    have hcx := h.clip_x
    have hcy := h.clip_y
    have hdx := h.des_x
    have hdy := h.des_y
    rw [toNat_add_of_noWrap hc.clip_x] at hcx
    rw [toNat_add_of_noWrap hc.clip_y] at hcy
    rw [toNat_add_of_noWrap hc.des_x] at hdx
    rw [toNat_add_of_noWrap hc.des_y] at hdy
    exact ⟨(layer0_sides hw hh).1, Nat.le_of_lt_succ h.pitch, ⟨hcx, hcy.le⟩, ⟨hdx, hdy.le⟩, hw, hh⟩

end Layer0

section Layer1

variable {l : GSP_LAYER1_CONFIG_INFO} {despitch : UInt32}

theorem layer1_sound_iff (h : Layer1Accepted l despitch) (hd : despitch.toNat < 4096) :
    Layer1Sound l despitch ↔ Layer1Checked l := by
  constructor
  · intro hs
    have hp := hs.pitch
    have hcx := hs.source.1
    have hcy := hs.source.2
    have hdx := hs.destination.1
    refine ⟨hs.nonempty, by omega, ?_, ?_, ?_, hs.destination.2⟩
    · exact hcx.trans_lt (by omega)
    · exact hcy.trans_lt (by decide)
    · exact hdx.trans_lt (by omega)
  · intro hc
    have hcx := h.clip_x
    have hcy := h.clip_y
    have hdx := h.des_x
    rw [toNat_add_of_noWrap hc.clip_x] at hcx
    rw [toNat_add_of_noWrap hc.clip_y] at hcy
    rw [toNat_add_of_noWrap hc.des_x] at hdx
    exact ⟨hc.sides, Nat.le_of_lt_succ (lt_of_nibble h.pitch hc.pitch), ⟨hcx, hcy.le⟩, hdx, hc.des_y⟩

end Layer1

/-- **The parameter check.** Of an accepted configuration, each enabled layer is sound exactly when it has what the
checks leave out: for layer 0 sums that do not wrap and a destination with no zero side, for layer 1 sums that do not
wrap, a source with no zero side, a pitch below 2^16, and a destination that ends by row 4096 -/
theorem gsp_hal_params_check_iff (fmt : DstFmt) (c : GSP_CONFIG_INFO)
    (h : gsp_hal_params_check fmt c = .GSP_NO_ERR) : Sound c ↔ Checked c := by
  have hd := (layerdes_ok (gsp_hal_params_check_ok h).2.2).1
  constructor
  · intro hs
    exact ⟨fun hen => (layer0_sound_iff (layer0_accepted h hen) hd).mp (hs.layer0 hen),
      fun hen => (layer1_sound_iff (layer1_accepted h hen) hd).mp (hs.layer1 hen)⟩
  · intro hc
    exact ⟨fun hen => (layer0_sound_iff (layer0_accepted h hen) hd).mpr (hc.layer0 hen),
      fun hen => (layer1_sound_iff (layer1_accepted h hen) hd).mpr (hc.layer1 hen)⟩

/-- a screen of 480 by 800 from a source of the same size, layer 1 off -/
def screen : GSP_CONFIG_INFO where
  layer0_info := ⟨1, ⟨0, 0, 480, 800⟩, ⟨0, 0, 480, 800⟩, 480, .ROT_0⟩
  layer1_info := ⟨0, ⟨0, 0, 0, 0⟩, ⟨0, 0⟩, 0, .ROT_0⟩
  layer_des_info := ⟨480, 0, 0⟩
  misc_info := ⟨0, 0⟩

/-- layer 1 of 64 by 32 in the middle of the screen -/
def window : GSP_CONFIG_INFO := { screen with layer1_info := ⟨1, ⟨0, 0, 64, 32⟩, ⟨200, 400⟩, 64, .ROT_0⟩ }

theorem gsp_hal_params_check_window : Sound window :=
  (gsp_hal_params_check_iff ⟨4, 6, 1⟩ window (by decide +kernel)).mpr
    ⟨fun _ => ⟨by decide, by decide, by decide, by decide, by decide⟩,
      fun _ => ⟨by decide, by decide, by decide, by decide, by decide, by decide⟩⟩

/-- layer 1 of 16 by 16 at row 8192 -/
def overlay : GSP_CONFIG_INFO := { screen with layer1_info := ⟨1, ⟨0, 0, 16, 16⟩, ⟨0, 8192⟩, 16, .ROT_0⟩ }

theorem gsp_hal_params_check_rows : ¬ ∀ (fmt : DstFmt) (c : GSP_CONFIG_INFO),
    (c.layer0_info.layer_en = 0 ∨ c.layer0_info.layer_en = 1) →
    (c.layer1_info.layer_en = 0 ∨ c.layer1_info.layer_en = 1) →
    gsp_hal_params_check fmt c = .GSP_NO_ERR → Sound c := by
  intro h
  have hs := h ⟨4, 6, 1⟩ overlay (Or.inr rfl) (Or.inr rfl) (by decide +kernel)
  exact absurd (hs.layer1 rfl).destination.2 (by decide)

end SprdDevice.Display.Gsp

import Mathlib.Data.List.Chain
import Ftke.Fixed

/-!
# Ftke.Fixed.Sine

`EGL_Sin` and `EGL_Cos` (`fixed.cpp`): an angle is brought to a position on a wave of 4096
steps, a quarter of which is tabulated, by a product that is kept modulo `2^32` and by a
constant for `1 / 2π` that is a little small.
-/

namespace Ftke.Fixed

/-- `EGL_2PI`. -/
def egl2Pi : Int32 := 411774

/-- `EGL_R2PI`. -/
def eglR2Pi : Int32 := 10430

/-- `__gl_sin_tab`. -/
@[irreducible]
def sinTab : List Nat :=
  [0x0000, 0x0064, 0x00c9, 0x012d, 0x0192, 0x01f7, 0x025b, 0x02c0, 0x0325, 0x0389, 0x03ee, 0x0452,
  0x04b7, 0x051c, 0x0580, 0x05e5, 0x0649, 0x06ae, 0x0713, 0x0777, 0x07dc, 0x0840, 0x08a5, 0x0909,
  0x096e, 0x09d3, 0x0a37, 0x0a9c, 0x0b00, 0x0b65, 0x0bc9, 0x0c2e, 0x0c92, 0x0cf7, 0x0d5b, 0x0dc0,
  0x0e24, 0x0e89, 0x0eed, 0x0f52, 0x0fb6, 0x101b, 0x107f, 0x10e3, 0x1148, 0x11ac, 0x1211, 0x1275,
  0x12d9, 0x133e, 0x13a2, 0x1406, 0x146b, 0x14cf, 0x1533, 0x1597, 0x15fc, 0x1660, 0x16c4, 0x1728,
  0x178d, 0x17f1, 0x1855, 0x18b9, 0x191d, 0x1981, 0x19e6, 0x1a4a, 0x1aae, 0x1b12, 0x1b76, 0x1bda,
  0x1c3e, 0x1ca2, 0x1d06, 0x1d6a, 0x1dce, 0x1e32, 0x1e96, 0x1efa, 0x1f5d, 0x1fc1, 0x2025, 0x2089,
  0x20ed, 0x2151, 0x21b4, 0x2218, 0x227c, 0x22e0, 0x2343, 0x23a7, 0x240a, 0x246e, 0x24d2, 0x2535,
  0x2599, 0x25fc, 0x2660, 0x26c3, 0x2727, 0x278a, 0x27ee, 0x2851, 0x28b4, 0x2918, 0x297b, 0x29de,
  0x2a42, 0x2aa5, 0x2b08, 0x2b6b, 0x2bce, 0x2c31, 0x2c95, 0x2cf8, 0x2d5b, 0x2dbe, 0x2e21, 0x2e84,
  0x2ee7, 0x2f4a, 0x2fac, 0x300f, 0x3072, 0x30d5, 0x3138, 0x319a, 0x31fd, 0x3260, 0x32c2, 0x3325,
  0x3388, 0x33ea, 0x344d, 0x34af, 0x3512, 0x3574, 0x35d6, 0x3639, 0x369b, 0x36fd, 0x3760, 0x37c2,
  0x3824, 0x3886, 0x38e8, 0x394a, 0x39ad, 0x3a0f, 0x3a71, 0x3ad3, 0x3b34, 0x3b96, 0x3bf8, 0x3c5a,
  0x3cbc, 0x3d1d, 0x3d7f, 0x3de1, 0x3e42, 0x3ea4, 0x3f06, 0x3f67, 0x3fc9, 0x402a, 0x408b, 0x40ed,
  0x414e, 0x41af, 0x4211, 0x4272, 0x42d3, 0x4334, 0x4395, 0x43f6, 0x4457, 0x44b8, 0x4519, 0x457a,
  0x45db, 0x463c, 0x469c, 0x46fd, 0x475e, 0x47be, 0x481f, 0x487f, 0x48e0, 0x4940, 0x49a1, 0x4a01,
  0x4a61, 0x4ac2, 0x4b22, 0x4b82, 0x4be2, 0x4c42, 0x4ca2, 0x4d02, 0x4d62, 0x4dc2, 0x4e22, 0x4e82,
  0x4ee1, 0x4f41, 0x4fa1, 0x5000, 0x5060, 0x50c0, 0x511f, 0x517e, 0x51de, 0x523d, 0x529c, 0x52fc,
  0x535b, 0x53ba, 0x5419, 0x5478, 0x54d7, 0x5536, 0x5595, 0x55f4, 0x5652, 0x56b1, 0x5710, 0x576e,
  0x57cd, 0x582b, 0x588a, 0x58e8, 0x5946, 0x59a5, 0x5a03, 0x5a61, 0x5abf, 0x5b1d, 0x5b7b, 0x5bd9,
  0x5c37, 0x5c95, 0x5cf3, 0x5d51, 0x5dae, 0x5e0c, 0x5e69, 0x5ec7, 0x5f24, 0x5f82, 0x5fdf, 0x603c,
  0x609a, 0x60f7, 0x6154, 0x61b1, 0x620e, 0x626b, 0x62c8, 0x6324, 0x6381, 0x63de, 0x643b, 0x6497,
  0x64f4, 0x6550, 0x65ac, 0x6609, 0x6665, 0x66c1, 0x671d, 0x6779, 0x67d5, 0x6831, 0x688d, 0x68e9,
  0x6945, 0x69a1, 0x69fc, 0x6a58, 0x6ab3, 0x6b0f, 0x6b6a, 0x6bc5, 0x6c21, 0x6c7c, 0x6cd7, 0x6d32,
  0x6d8d, 0x6de8, 0x6e43, 0x6e9d, 0x6ef8, 0x6f53, 0x6fad, 0x7008, 0x7062, 0x70bd, 0x7117, 0x7171,
  0x71cb, 0x7226, 0x7280, 0x72da, 0x7333, 0x738d, 0x73e7, 0x7441, 0x749a, 0x74f4, 0x754d, 0x75a7,
  0x7600, 0x7659, 0x76b3, 0x770c, 0x7765, 0x77be, 0x7817, 0x786f, 0x78c8, 0x7921, 0x797a, 0x79d2,
  0x7a2b, 0x7a83, 0x7adb, 0x7b33, 0x7b8c, 0x7be4, 0x7c3c, 0x7c94, 0x7cec, 0x7d43, 0x7d9b, 0x7df3,
  0x7e4a, 0x7ea2, 0x7ef9, 0x7f51, 0x7fa8, 0x7fff, 0x8056, 0x80ad, 0x8104, 0x815b, 0x81b2, 0x8208,
  0x825f, 0x82b6, 0x830c, 0x8363, 0x83b9, 0x840f, 0x8465, 0x84bb, 0x8511, 0x8567, 0x85bd, 0x8613,
  0x8669, 0x86be, 0x8714, 0x8769, 0x87bf, 0x8814, 0x8869, 0x88be, 0x8913, 0x8968, 0x89bd, 0x8a12,
  0x8a66, 0x8abb, 0x8b10, 0x8b64, 0x8bb8, 0x8c0d, 0x8c61, 0x8cb5, 0x8d09, 0x8d5d, 0x8db1, 0x8e04,
  0x8e58, 0x8eac, 0x8eff, 0x8f53, 0x8fa6, 0x8ff9, 0x904c, 0x90a0, 0x90f2, 0x9145, 0x9198, 0x91eb,
  0x923e, 0x9290, 0x92e3, 0x9335, 0x9387, 0x93d9, 0x942c, 0x947e, 0x94cf, 0x9521, 0x9573, 0x95c5,
  0x9616, 0x9668, 0x96b9, 0x970a, 0x975c, 0x97ad, 0x97fe, 0x984f, 0x989f, 0x98f0, 0x9941, 0x9991,
  0x99e2, 0x9a32, 0x9a83, 0x9ad3, 0x9b23, 0x9b73, 0x9bc3, 0x9c13, 0x9c62, 0x9cb2, 0x9d01, 0x9d51,
  0x9da0, 0x9def, 0x9e3f, 0x9e8e, 0x9edd, 0x9f2b, 0x9f7a, 0x9fc9, 0xa017, 0xa066, 0xa0b4, 0xa103,
  0xa151, 0xa19f, 0xa1ed, 0xa23b, 0xa288, 0xa2d6, 0xa324, 0xa371, 0xa3bf, 0xa40c, 0xa459, 0xa4a6,
  0xa4f3, 0xa540, 0xa58d, 0xa5da, 0xa626, 0xa673, 0xa6bf, 0xa70b, 0xa758, 0xa7a4, 0xa7f0, 0xa83c,
  0xa887, 0xa8d3, 0xa91f, 0xa96a, 0xa9b6, 0xaa01, 0xaa4c, 0xaa97, 0xaae2, 0xab2d, 0xab78, 0xabc2,
  0xac0d, 0xac58, 0xaca2, 0xacec, 0xad36, 0xad80, 0xadca, 0xae14, 0xae5e, 0xaea7, 0xaef1, 0xaf3a,
  0xaf84, 0xafcd, 0xb016, 0xb05f, 0xb0a8, 0xb0f1, 0xb139, 0xb182, 0xb1ca, 0xb213, 0xb25b, 0xb2a3,
  0xb2eb, 0xb333, 0xb37b, 0xb3c2, 0xb40a, 0xb452, 0xb499, 0xb4e0, 0xb527, 0xb56e, 0xb5b5, 0xb5fc,
  0xb643, 0xb689, 0xb6d0, 0xb716, 0xb75d, 0xb7a3, 0xb7e9, 0xb82f, 0xb875, 0xb8ba, 0xb900, 0xb945,
  0xb98b, 0xb9d0, 0xba15, 0xba5a, 0xba9f, 0xbae4, 0xbb29, 0xbb6d, 0xbbb2, 0xbbf6, 0xbc3a, 0xbc7f,
  0xbcc3, 0xbd07, 0xbd4a, 0xbd8e, 0xbdd2, 0xbe15, 0xbe58, 0xbe9c, 0xbedf, 0xbf22, 0xbf65, 0xbfa7,
  0xbfea, 0xc02d, 0xc06f, 0xc0b1, 0xc0f4, 0xc136, 0xc178, 0xc1b9, 0xc1fb, 0xc23d, 0xc27e, 0xc2c0,
  0xc301, 0xc342, 0xc383, 0xc3c4, 0xc405, 0xc445, 0xc486, 0xc4c6, 0xc507, 0xc547, 0xc587, 0xc5c7,
  0xc607, 0xc646, 0xc686, 0xc6c5, 0xc705, 0xc744, 0xc783, 0xc7c2, 0xc801, 0xc840, 0xc87e, 0xc8bd,
  0xc8fb, 0xc939, 0xc978, 0xc9b6, 0xc9f4, 0xca31, 0xca6f, 0xcaad, 0xcaea, 0xcb27, 0xcb64, 0xcba1,
  0xcbde, 0xcc1b, 0xcc58, 0xcc94, 0xccd1, 0xcd0d, 0xcd49, 0xcd85, 0xcdc1, 0xcdfd, 0xce39, 0xce74,
  0xceb0, 0xceeb, 0xcf26, 0xcf61, 0xcf9c, 0xcfd7, 0xd012, 0xd04c, 0xd087, 0xd0c1, 0xd0fb, 0xd135,
  0xd16f, 0xd1a9, 0xd1e3, 0xd21c, 0xd256, 0xd28f, 0xd2c8, 0xd301, 0xd33a, 0xd373, 0xd3ac, 0xd3e4,
  0xd41c, 0xd455, 0xd48d, 0xd4c5, 0xd4fd, 0xd535, 0xd56c, 0xd5a4, 0xd5db, 0xd612, 0xd649, 0xd680,
  0xd6b7, 0xd6ee, 0xd725, 0xd75b, 0xd791, 0xd7c8, 0xd7fe, 0xd834, 0xd869, 0xd89f, 0xd8d5, 0xd90a,
  0xd93f, 0xd975, 0xd9aa, 0xd9de, 0xda13, 0xda48, 0xda7c, 0xdab1, 0xdae5, 0xdb19, 0xdb4d, 0xdb81,
  0xdbb5, 0xdbe8, 0xdc1c, 0xdc4f, 0xdc82, 0xdcb5, 0xdce8, 0xdd1b, 0xdd4e, 0xdd80, 0xddb2, 0xdde5,
  0xde17, 0xde49, 0xde7b, 0xdeac, 0xdede, 0xdf0f, 0xdf41, 0xdf72, 0xdfa3, 0xdfd4, 0xe005, 0xe035,
  0xe066, 0xe096, 0xe0c6, 0xe0f6, 0xe126, 0xe156, 0xe186, 0xe1b5, 0xe1e5, 0xe214, 0xe243, 0xe272,
  0xe2a1, 0xe2d0, 0xe2fe, 0xe32d, 0xe35b, 0xe389, 0xe3b7, 0xe3e5, 0xe413, 0xe441, 0xe46e, 0xe49c,
  0xe4c9, 0xe4f6, 0xe523, 0xe550, 0xe57c, 0xe5a9, 0xe5d5, 0xe601, 0xe62d, 0xe659, 0xe685, 0xe6b1,
  0xe6dd, 0xe708, 0xe733, 0xe75e, 0xe789, 0xe7b4, 0xe7df, 0xe809, 0xe834, 0xe85e, 0xe888, 0xe8b2,
  0xe8dc, 0xe906, 0xe930, 0xe959, 0xe982, 0xe9ab, 0xe9d5, 0xe9fd, 0xea26, 0xea4f, 0xea77, 0xeaa0,
  0xeac8, 0xeaf0, 0xeb18, 0xeb3f, 0xeb67, 0xeb8e, 0xebb6, 0xebdd, 0xec04, 0xec2b, 0xec52, 0xec78,
  0xec9f, 0xecc5, 0xeceb, 0xed11, 0xed37, 0xed5d, 0xed83, 0xeda8, 0xedcd, 0xedf3, 0xee18, 0xee3d,
  0xee61, 0xee86, 0xeeaa, 0xeecf, 0xeef3, 0xef17, 0xef3b, 0xef5f, 0xef82, 0xefa6, 0xefc9, 0xefec,
  0xf00f, 0xf032, 0xf055, 0xf077, 0xf09a, 0xf0bc, 0xf0de, 0xf100, 0xf122, 0xf144, 0xf165, 0xf187,
  0xf1a8, 0xf1c9, 0xf1ea, 0xf20b, 0xf22c, 0xf24c, 0xf26d, 0xf28d, 0xf2ad, 0xf2cd, 0xf2ed, 0xf30c,
  0xf32c, 0xf34b, 0xf36b, 0xf38a, 0xf3a9, 0xf3c7, 0xf3e6, 0xf404, 0xf423, 0xf441, 0xf45f, 0xf47d,
  0xf49b, 0xf4b8, 0xf4d6, 0xf4f3, 0xf510, 0xf52d, 0xf54a, 0xf567, 0xf583, 0xf5a0, 0xf5bc, 0xf5d8,
  0xf5f4, 0xf610, 0xf62c, 0xf647, 0xf663, 0xf67e, 0xf699, 0xf6b4, 0xf6cf, 0xf6e9, 0xf704, 0xf71e,
  0xf738, 0xf752, 0xf76c, 0xf786, 0xf7a0, 0xf7b9, 0xf7d2, 0xf7ec, 0xf805, 0xf81d, 0xf836, 0xf84f,
  0xf867, 0xf87f, 0xf897, 0xf8af, 0xf8c7, 0xf8df, 0xf8f6, 0xf90e, 0xf925, 0xf93c, 0xf953, 0xf96a,
  0xf980, 0xf997, 0xf9ad, 0xf9c3, 0xf9d9, 0xf9ef, 0xfa05, 0xfa1a, 0xfa2f, 0xfa45, 0xfa5a, 0xfa6f,
  0xfa84, 0xfa98, 0xfaad, 0xfac1, 0xfad5, 0xfae9, 0xfafd, 0xfb11, 0xfb24, 0xfb38, 0xfb4b, 0xfb5e,
  0xfb71, 0xfb84, 0xfb97, 0xfba9, 0xfbbc, 0xfbce, 0xfbe0, 0xfbf2, 0xfc03, 0xfc15, 0xfc26, 0xfc38,
  0xfc49, 0xfc5a, 0xfc6b, 0xfc7b, 0xfc8c, 0xfc9c, 0xfcad, 0xfcbd, 0xfccd, 0xfcdc, 0xfcec, 0xfcfb,
  0xfd0b, 0xfd1a, 0xfd29, 0xfd38, 0xfd47, 0xfd55, 0xfd63, 0xfd72, 0xfd80, 0xfd8e, 0xfd9c, 0xfda9,
  0xfdb7, 0xfdc4, 0xfdd1, 0xfdde, 0xfdeb, 0xfdf8, 0xfe04, 0xfe11, 0xfe1d, 0xfe29, 0xfe35, 0xfe41,
  0xfe4c, 0xfe58, 0xfe63, 0xfe6e, 0xfe79, 0xfe84, 0xfe8f, 0xfe9a, 0xfea4, 0xfeae, 0xfeb8, 0xfec2,
  0xfecc, 0xfed6, 0xfedf, 0xfee9, 0xfef2, 0xfefb, 0xff04, 0xff0c, 0xff15, 0xff1d, 0xff26, 0xff2e,
  0xff36, 0xff3d, 0xff45, 0xff4d, 0xff54, 0xff5b, 0xff62, 0xff69, 0xff70, 0xff76, 0xff7d, 0xff83,
  0xff89, 0xff8f, 0xff95, 0xff9a, 0xffa0, 0xffa5, 0xffaa, 0xffaf, 0xffb4, 0xffb9, 0xffbe, 0xffc2,
  0xffc6, 0xffca, 0xffce, 0xffd2, 0xffd6, 0xffd9, 0xffdc, 0xffe0, 0xffe3, 0xffe5, 0xffe8, 0xffeb,
  0xffed, 0xffef, 0xfff1, 0xfff3, 0xfff5, 0xfff7, 0xfff8, 0xfffa, 0xfffb, 0xfffc, 0xfffd, 0xfffd,
  0xfffe, 0xfffe, 0xfffe, 0xfffe]

/-- `while (a < EGL_ZERO) a += EGL_2PI`. -/
def raise (a : Int32) : Int32 := if a < 0 then raise (a + egl2Pi) else a
termination_by (-a.toInt).toNat
decreasing_by
  rename_i hneg
  rw [Int32.lt_iff_toInt_lt, Int32.toInt_zero] at hneg
  have hle := a.le_toInt
  have h2Pi : egl2Pi.toInt = 411774 := by rfl
  rw [Int32.toInt_add, h2Pi, bmod_of_fits (by unfold Fits; omega)]
  omega

/-- The index of the quarter wave. -/
def sinIndex (a : Int32) : Int32 := if a &&& 0x400 ≠ 0 then 0x3ff - (a &&& 0x3ff) else a &&& 0x3ff

/-- The part the two functions share: the table read forth or back, and the sign. -/
def sinFold (a : Int32) : Int32 :=
  let v := eglMul (Int32.ofNat (sinTab.getD (sinIndex a).toNatClampNeg 0)) eglOne
  if a &&& 0x800 ≠ 0 then -v else v

/-- The reduced angle of `EGL_Sin`. -/
def sinAngle (a : Int32) : Int32 := (raise a * eglR2Pi) >>> 16 >>> 4

/-- The reduced angle of `EGL_Cos`. -/
def cosAngle (a : Int32) : Int32 := ((raise a * eglR2Pi) >>> 16 + 0x4000) >>> 4

/-- `EGL_Sin`. -/
def eglSin (a : Int32) : Int32 := sinFold (sinAngle a)

/-- `EGL_Cos`. -/
def eglCos (a : Int32) : Int32 := sinFold (cosAngle a)

/-! ## The wave -/

/-- An entry of the table. -/
def quarter (i : Int) : Int := sinTab.getD i.toNat 0

/-- The first half of the wave. -/
def half (p : Int) : Int := if p < 1024 then quarter p else quarter (2047 - p)

/-- The wave of 4096 steps that the table stands for. -/
def wave (p : Int) : Int := if p < 2048 then half p else -half (p - 2048)

theorem quarter_bounds (i : Int) : 0 ≤ quarter i ∧ quarter i < 2 ^ 16 := by
  have hall : ∀ v ∈ sinTab, v < 2 ^ 16 := by decide +kernel
  have : sinTab.getD i.toNat 0 < 2 ^ 16 := by
    rw [List.getD_eq_getElem?_getD]
    cases h : sinTab[i.toNat]? with
    | none => simp
    | some v => exact hall v (List.mem_of_getElem? h)
  unfold quarter
  omega

theorem quarter_step {i : Int} (h0 : 0 ≤ i) (hi : i < 1023) : |quarter (i + 1) - quarter i| ≤ 101 := by
  have hchain : sinTab.IsChain (fun x y => x ≤ y ∧ y ≤ x + 101) := by decide +kernel
  obtain ⟨n, rfl⟩ : ∃ n : Nat, i = n := ⟨i.toNat, (Int.toNat_of_nonneg h0).symm⟩
  have hlen : sinTab.length = 1024 := by decide +kernel
  have hn : n + 1 < sinTab.length := by omega
  have hstep := List.isChain_iff_getElem.mp hchain n hn
  rw [quarter, quarter, show ((n : Int) + 1).toNat = n + 1 by omega, Int.toNat_natCast,
    ← List.getElem_eq_getD (h := hn), ← List.getElem_eq_getD (h := by omega), abs_le]
  omega

/-- Positions on the wave that are equal or next to one another. -/
def Adjacent (p q : Int) : Prop := (p - q + 1) % 4096 ≤ 2

instance (p q : Int) : Decidable (Adjacent p q) := inferInstanceAs (Decidable (_ ≤ _))

variable {p q : Int}

theorem half_step (h0 : 0 ≤ p) (hp : p < 2047) : |half (p + 1) - half p| ≤ 101 := by
  unfold half
  split_ifs with h1 h2 h2
  · exact quarter_step h0 (by omega)
  · omega
  · rw [show p = 1023 by omega]
    simp
  · have := quarter_step (i := 2047 - (p + 1)) (by omega) (by omega)
    rwa [show 2047 - (p + 1) + 1 = 2047 - p by omega, abs_sub_comm] at this

theorem half_ends : half 0 = 0 ∧ half 2047 = 0 := by
  unfold half quarter
  decide +kernel

theorem wave_step (h0 : 0 ≤ p) (hp : p < 4096) : |wave ((p + 1) % 4096) - wave p| ≤ 101 := by
  have hends := half_ends
  obtain hlt | rfl := (show p ≤ 4095 by omega).lt_or_eq
  · rw [Int.emod_eq_of_lt (by omega) (by omega)]
    unfold wave
    split_ifs with h1 h2 h2
    · exact half_step h0 (by omega)
    · omega
    · rw [show p = 2047 by omega]
      simp [hends]
    · have := half_step (p := p - 2048) (by omega) (by omega)
      rwa [← neg_sub', abs_neg, show p + 1 - 2048 = p - 2048 + 1 by omega]
  · simp [wave, hends]

theorem wave_adjacent (hp0 : 0 ≤ p) (hp : p < 4096) (hq0 : 0 ≤ q) (hq : q < 4096)
    (h : Adjacent p q) : |wave p - wave q| ≤ 101 := by
  unfold Adjacent at h
  obtain rfl | hnext | hprev : p = q ∨ (q + 1) % 4096 = p ∨ (p + 1) % 4096 = q := by omega
  · simp
  · rw [← hnext]
    exact wave_step hq0 hq
  · rw [← hprev, abs_sub_comm]
    exact wave_step hp0 hp

theorem half_mirror (h0 : 0 ≤ p) (hp : p < 2048) : half (2047 - p) = half p := by
  unfold half
  split_ifs with h1 h2 h2
  · omega
  · rfl
  · rw [sub_sub_cancel]
  · omega

theorem wave_mirror (h0 : 0 ≤ p) (hp : p < 4096) : wave (4095 - p) = -wave p := by
  unfold wave
  split_ifs with h1 h2 h2
  · omega
  · rw [neg_neg, ← half_mirror (by omega) (by omega)]
    exact congrArg half (by omega)
  · rw [← half_mirror (by omega) (by omega), neg_inj]
    exact congrArg half (by omega)
  · omega

/-! ## The functions -/

theorem sinIndex_spec (a : Int32) :
    (sinIndex a).toInt = if a.toInt % 2048 < 1024 then a.toInt % 1024 else 1023 - a.toInt % 1024 := by
  have hlow : (a &&& 0x3ff).toInt = a.toInt % 1024 := toInt_and_ones (k := 10) (by norm_num) (by rfl)
  have hbit : a &&& 0x400 ≠ 0 ↔ a.toInt / 2 ^ 10 % 2 = 1 := and_bit_ne_zero (by norm_num) (by rfl)
  simp only [sinIndex, hbit]
  split_ifs with h1 h2 h2
  · omega
  · rw [Int32.toInt_sub, hlow, show (0x3ff : Int32).toInt = 1023 by rfl, bmod_of_fits (by unfold Fits; omega)]
  · exact hlow
  · omega

theorem sinFold_spec (a : Int32) : (sinFold a).toInt = wave (a.toInt % 4096) := by
  have hindex := sinIndex_spec a
  have hsign : a &&& 0x800 ≠ 0 ↔ a.toInt / 2 ^ 11 % 2 = 1 := and_bit_ne_zero (by norm_num) (by rfl)
  obtain ⟨h0, h16⟩ := quarter_bounds (sinIndex a).toInt
  have hv : (Int32.ofNat (sinTab.getD (sinIndex a).toNatClampNeg 0)).toInt = quarter (sinIndex a).toInt := by
    rw [Int32.toNatClampNeg, quarter, Int32.toInt_ofNat_of_lt]
    rw [quarter] at h16
    omega
  have hmul : (eglMul (Int32.ofNat (sinTab.getD (sinIndex a).toNatClampNeg 0)) eglOne).toInt =
      quarter (sinIndex a).toInt := by
    have hone : eglOne.toInt = 2 ^ 16 := by rfl
    rw [toInt_eglMul, product, hv, hone, Int.mul_ediv_cancel _ (by norm_num), bmod_of_fits (by unfold Fits; omega)]
  have hhalf : quarter (sinIndex a).toInt = half (a.toInt % 2048) := by
    unfold half
    rw [hindex]
    split_ifs
    · exact congrArg quarter (by omega)
    · exact congrArg quarter (by omega)
  simp only [sinFold, hsign, wave]
  split_ifs with h1 h2 h2
  · omega
  · rw [Int32.toInt_neg, hmul, bmod_of_fits (by unfold Fits; omega), hhalf, neg_inj]
    exact congrArg half (by omega)
  · rw [hmul, hhalf]
    exact congrArg half (by omega)
  · omega

/-! ## The reduction -/

/-- What the loop leaves of an angle. -/
def reduced (a : Int) : Int := if 0 ≤ a then a else a % 411774

theorem toInt_egl2Pi : egl2Pi.toInt = 411774 := by rfl

theorem toInt_eglR2Pi : eglR2Pi.toInt = 10430 := by rfl

/-- **The loop ends** at the first angle that is not negative. -/
theorem toInt_raise (a : Int32) : (raise a).toInt = reduced a.toInt := by
  induction a using raise.induct with
  | case1 a hneg ih =>
    rw [raise, if_pos hneg, ih]
    rw [Int32.lt_iff_toInt_lt, Int32.toInt_zero] at hneg
    have hle := a.le_toInt
    rw [Int32.toInt_add, toInt_egl2Pi, bmod_of_fits (by unfold Fits; omega)]
    unfold reduced
    split_ifs <;> omega
  | case2 a hneg =>
    rw [raise, if_neg hneg]
    rw [Int32.lt_iff_toInt_lt, Int32.toInt_zero] at hneg
    rw [reduced, if_pos (by omega)]

/-- The place on the wave `EGL_Sin` reads: the bits it tests. -/
def position (a : Int32) : Int := (sinAngle a).toInt % 4096

/-- The place on the wave `EGL_Cos` reads. -/
def cosPosition (a : Int32) : Int := (cosAngle a).toInt % 4096

theorem eglSin_eq (a : Int32) : (eglSin a).toInt = wave (position a) := sinFold_spec _

theorem eglCos_eq (a : Int32) : (eglCos a).toInt = wave (cosPosition a) := sinFold_spec _

theorem toInt_shifted (x : Int32) : (x >>> 16).toInt = x.toInt / 2 ^ 16 :=
  toInt_shiftRight x (by decide) (by decide)

theorem toInt_raise_mul (a : Int32) :
    (raise a * eglR2Pi).toInt = (reduced a.toInt * 10430).bmod (2 ^ 32) := by
  rw [Int32.toInt_mul, toInt_raise, toInt_eglR2Pi]

theorem position_eq (a : Int32) : position a = reduced a.toInt * 10430 % 2 ^ 32 / 2 ^ 20 := by
  have hshift : ∀ x : Int32, (x >>> 4).toInt = x.toInt / 2 ^ 4 :=
    fun x => toInt_shiftRight x (by decide) (by decide)
  rw [position, sinAngle, hshift, toInt_shifted, toInt_raise_mul, Words.bmod_word]
  generalize reduced a.toInt * 10430 = p
  omega

theorem cosPosition_eq (a : Int32) : cosPosition a = (position a + 1024) % 4096 := by
  have hshift : ∀ x : Int32, (x >>> 4).toInt = x.toInt / 2 ^ 4 :=
    fun x => toInt_shiftRight x (by decide) (by decide)
  have hquarter : (0x4000 : Int32).toInt = 0x4000 := by rfl
  have hraise := toInt_raise_mul a
  rw [Words.bmod_word] at hraise
  rw [position_eq, cosPosition, cosAngle, hshift, Int32.toInt_add, toInt_shifted, hquarter,
    bmod_of_fits (by unfold Fits; omega), hraise]
  generalize reduced a.toInt * 10430 = p
  omega

/-! ## The laws -/

/-- How often the period is in the difference of what is left of two angles. -/
def turns (a b : Int) : Int := |reduced b - reduced a| / 411774

theorem adjacent_iff {x y d : Int} (h0 : 0 ≤ d) (hd : d < 2 ^ 30) (hy : y % 2 ^ 32 = (x - d) % 2 ^ 32) :
    Adjacent (y % 2 ^ 32 / 2 ^ 20) (x % 2 ^ 32 / 2 ^ 20) ↔ d ≤ 2 ^ 20 + x % 2 ^ 20 := by
  rw [hy]
  unfold Adjacent
  omega

theorem reduced_bounds (a : Int32) : 0 ≤ reduced a.toInt ∧ reduced a.toInt < 2 ^ 31 := by
  have hlt := a.toInt_lt
  unfold reduced
  split_ifs <;> omega

theorem reduced_eq (a : Int) : ∃ n : Int, reduced a = a + 411774 * n := by
  unfold reduced
  split_ifs
  · exact ⟨0, by omega⟩
  · exact ⟨-(a / 411774), by omega⟩

variable {a b : Int32}

theorem adjacent_position_of_le {j : Int} (h0 : 0 ≤ j) (hj : reduced b.toInt = reduced a.toInt + 411774 * j) :
    Adjacent (position b) (position a) ↔ 164476 * j ≤ 2 ^ 20 + reduced a.toInt * 10430 % 2 ^ 20 := by
  have ha := reduced_bounds a
  have hb := reduced_bounds b
  rw [position_eq, position_eq]
  refine adjacent_iff (by omega) (by omega) ?_
  rw [hj]
  omega

theorem adjacent_comm : Adjacent p q ↔ Adjacent q p := by
  unfold Adjacent
  omega

theorem adjacent_position_iff {k : Int} (hb : b.toInt = a.toInt + k * 411774) :
    Adjacent (position b) (position a) ↔ 164476 * turns a.toInt b.toInt ≤
      2 ^ 20 + min (reduced a.toInt) (reduced b.toInt) * 10430 % 2 ^ 20 := by
  obtain ⟨n, hn⟩ : ∃ n, reduced b.toInt = reduced a.toInt + 411774 * n := by
    obtain ⟨m, hm⟩ := reduced_eq a.toInt
    obtain ⟨n, hn⟩ := reduced_eq b.toInt
    exact ⟨k + n - m, by omega⟩
  unfold turns
  obtain h0 | h0 := le_total 0 n
  · rw [adjacent_position_of_le h0 hn, min_eq_left (by omega), abs_of_nonneg (by omega), hn, add_sub_cancel_left,
      Int.mul_ediv_cancel_left _ (by norm_num)]
  · have hn' : reduced a.toInt = reduced b.toInt + 411774 * -n := by omega
    rw [adjacent_comm, adjacent_position_of_le (by omega) hn', min_eq_right (by omega),
      abs_of_nonpos (by omega), hn', ← neg_sub, neg_neg, add_sub_cancel_left, Int.mul_ediv_cancel_left _ (by norm_num)]

/-- `Sin(-a)` is `-Sin(a)` but for a step. -/
structure OddAt (a : Int32) : Prop where
  step : Adjacent (position (-a)) (4095 - position a)
  value : |(eglSin (-a)).toInt + (eglSin a).toInt| ≤ 101

/-- `Sin(b)` is `Sin(a)` but for a step. -/
structure PeriodAt (a b : Int32) : Prop where
  step : Adjacent (position b) (position a)
  value : |(eglSin b).toInt - (eglSin a).toInt| ≤ 101

/-- The product of the reduction is not wrapped. -/
def ExactAt (a : Int32) : Prop := Fits ((raise a).toInt * eglR2Pi.toInt)

/-- An entry of the table is read. -/
def InTable (a : Int32) : Prop := 0 ≤ (sinIndex a).toInt ∧ (sinIndex a).toInt < sinTab.length

theorem inTable (a : Int32) : InTable a := by
  have hlen : sinTab.length = 1024 := by decide +kernel
  have hindex := sinIndex_spec a
  unfold InTable
  rw [hindex, hlen]
  split_ifs <;> omega

theorem position_bounds (a : Int32) : 0 ≤ position a ∧ position a < 4096 := by
  unfold position
  omega

theorem periodAt_iff : PeriodAt a b ↔ Adjacent (position b) (position a) := by
  refine ⟨PeriodAt.step, fun h => ⟨h, ?_⟩⟩
  obtain ⟨ha0, ha⟩ := position_bounds a
  obtain ⟨hb0, hb⟩ := position_bounds b
  rw [eglSin_eq, eglSin_eq]
  exact wave_adjacent hb0 hb ha0 ha h

theorem oddAt_iff : OddAt a ↔ Adjacent (position (-a)) (4095 - position a) := by
  refine ⟨OddAt.step, fun h => ⟨h, ?_⟩⟩
  obtain ⟨ha0, ha⟩ := position_bounds a
  obtain ⟨hb0, hb⟩ := position_bounds (-a)
  have hstep := wave_adjacent hb0 hb (by omega) (by omega) h
  rw [wave_mirror ha0 ha, sub_neg_eq_add] at hstep
  rwa [eglSin_eq, eglSin_eq]

/-- How often the loop runs for the negative one of `a` and `-a`. -/
def rounds (a : Int) : Int := (|a| + 411773) / 411774

theorem adjacent_mirror_iff {a c : Int32} (h0 : 0 ≤ a.toInt) (hc : c.toInt = -a.toInt) :
    Adjacent (position c) (4095 - position a) ↔
      164476 * rounds a.toInt + a.toInt * 10430 % 2 ^ 20 ≤ 2 ^ 21 := by
  have hlt := a.toInt_lt
  obtain ⟨n, hn⟩ : ∃ n, n = rounds a.toInt := ⟨_, rfl⟩
  have hred : reduced c.toInt = 411774 * n - a.toInt := by
    rw [hn, rounds, abs_of_nonneg h0, hc]
    unfold reduced
    split_ifs <;> omega
  have hmirror : 4095 - position a = (-(a.toInt * 10430) - 1) % 2 ^ 32 / 2 ^ 20 := by
    rw [position_eq, reduced, if_pos h0]
    generalize a.toInt * 10430 = p
    omega
  have hn0 : 0 ≤ n ∧ n ≤ 5216 := by
    rw [hn, rounds, abs_of_nonneg h0]
    omega
  rw [← hn, hmirror, position_eq, hred]
  obtain hzero | hpos := hn0.1.eq_or_lt
  · have ha : a.toInt = 0 := by
      rw [← hzero, rounds, abs_of_nonneg h0] at hn
      omega
    rw [← hzero, ha]
    decide
  · have hback : (411774 * n - a.toInt) * 10430 % 2 ^ 32 =
        (-(a.toInt * 10430) - 1 - (164476 * n - 1)) % 2 ^ 32 := by
      rw [sub_mul]
      generalize a.toInt * 10430 = p
      omega
    rw [adjacent_iff (by omega) (by omega) hback]
    generalize a.toInt * 10430 = p
    omega

theorem oddAt_iff_rounds (ha : a ≠ Int32.minValue) :
    OddAt a ↔ 164476 * rounds a.toInt + |a.toInt| * 10430 % 2 ^ 20 ≤ 2 ^ 21 := by
  have hmin : a.toInt ≠ -2 ^ 31 := fun h => ha (Int32.toInt_inj.mp h)
  have hle := a.le_toInt
  have hlt := a.toInt_lt
  have hneg : (-a).toInt = -a.toInt := by rw [Int32.toInt_neg, bmod_of_fits (by unfold Fits; omega)]
  rw [oddAt_iff]
  obtain h0 | h0 := le_total 0 a.toInt
  · rw [adjacent_mirror_iff h0 hneg, abs_of_nonneg h0]
  · have hmirror := adjacent_mirror_iff (a := -a) (c := a) (by omega) (by omega)
    rw [hneg, rounds, abs_neg, ← rounds] at hmirror
    rw [abs_of_nonpos h0, ← hmirror]
    unfold Adjacent
    omega

theorem exactAt_iff (a : Int32) : ExactAt a ↔ reduced a.toInt ≤ 205894 := by
  have h := reduced_bounds a
  rw [ExactAt, toInt_raise, toInt_eglR2Pi]
  unfold Fits
  omega

/-- **The laws of the sine, each with the angles it holds for.** The table is always read in
range. The period law and the law of the negative angle hold to a step of the table while the
error of a period, added up, is small enough; and the product of the reduction does not wrap up
to about half a period. -/
theorem eglSin_laws (a b : Int32) (k : Int) (ha : a ≠ Int32.minValue)
    (hb : b.toInt = a.toInt + k * egl2Pi.toInt) :
    (InTable (sinAngle a) ∧ InTable (cosAngle a)) ∧
      (OddAt a ↔ 164476 * rounds a.toInt + |a.toInt| * 10430 % 2 ^ 20 ≤ 2 ^ 21) ∧
      (PeriodAt a b ↔ 164476 * turns a.toInt b.toInt ≤
        2 ^ 20 + min (reduced a.toInt) (reduced b.toInt) * 10430 % 2 ^ 20) ∧
      (ExactAt a ↔ reduced a.toInt ≤ 205894) := by
  rw [toInt_egl2Pi] at hb
  exact ⟨⟨inTable _, inTable _⟩, oddAt_iff_rounds ha, periodAt_iff.trans (adjacent_position_iff hb), exactAt_iff a⟩

/-- A period after 0. -/
theorem eglSin_laws_period :
    (0 : Int32) ≠ Int32.minValue ∧ (411774 : Int32).toInt = (0 : Int32).toInt + 1 * egl2Pi.toInt ∧
      (PeriodAt 0 411774 ↔ 164476 * turns 0 411774 ≤ 2 ^ 20 + min (reduced 0) (reduced 411774) * 10430 % 2 ^ 20) :=
  ⟨by decide, by decide, (eglSin_laws 0 411774 1 (by decide) (by decide)).2.2.1⟩

/-- Seven periods after 0 the sine is two steps short, and the product has wrapped. -/
theorem eglSin_not_period :
    (2882418 : Int32).toInt = (0 : Int32).toInt + 7 * egl2Pi.toInt ∧
      ¬PeriodAt 0 2882418 ∧ ¬ExactAt 2882418 := by
  have hb : (2882418 : Int32).toInt = (0 : Int32).toInt + 7 * egl2Pi.toInt := by decide
  rw [periodAt_iff, adjacent_position_iff hb, exactAt_iff]
  decide

end Ftke.Fixed

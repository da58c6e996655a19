import Mathlib.Algebra.Ring.Nat
import Mathlib.Data.Nat.Bitwise

/-!
# Ftke.Golay

The Golay decoder of `Level2PduParcom` (`level2.h`, `level2.cpp`).

A header word has 24 bits: twelve bits of data, the overall parity (dropped by
the receiver) and eleven check bits, the remainder of the data by the generator
`0xc75`.  `GolayDec` corrects up to three flipped bits by a table, but counts
errors by the ones of the *syndrome*.  For flips in the check bits this is their
number; one flip of a data bit already makes it four at least
(`golayDec_data`), since two code words differ in seven bits.
-/

namespace Ftke.Golay

/-! ## Counting ones -/

/-- The loop with which the constructor fills `iNumOnes`, over the `k` low bits. -/
def ones : Nat → Nat → Nat
  | 0, _ => 0
  | k + 1, m => m % 2 + ones k (m / 2)

/-- An entry of `iNumOnes`. -/
def iNumOnes (n : Nat) : Nat := ones 8 n

@[simp] theorem ones_zero_right (k : Nat) : ones k 0 = 0 := by
  induction k with
  | zero => rfl
  | succ k ih => simp [ones, ih]

theorem ones_mod (k m : Nat) : ones k (m % 2 ^ k) = ones k m := by
  induction k generalizing m with
  | zero => rfl
  | succ k ih =>
    have hlow : m % 2 ^ (k + 1) % 2 = m % 2 := by
      rw [Nat.pow_succ, Nat.mul_comm]
      exact Nat.mod_mul_right_mod ..
    have hhigh : m % 2 ^ (k + 1) / 2 = m / 2 % 2 ^ k := by
      rw [Nat.pow_succ, Nat.mul_comm, Nat.mod_mul_right_div_self]
    simp only [ones, hlow, hhigh, ih]

theorem ones_add (j k m : Nat) : ones (j + k) m = ones j m + ones k (m / 2 ^ j) := by
  induction j generalizing m with
  | zero => simp [ones]
  | succ j ih =>
    have hdiv : m / 2 / 2 ^ j = m / 2 ^ (j + 1) := by
      rw [Nat.div_div_eq_div_mul, Nat.pow_succ, Nat.mul_comm 2]
    rw [Nat.add_right_comm]
    simp only [ones, ih, hdiv]
    omega

theorem ones_xor (k a b : Nat) : ones k (a ^^^ b) ≤ ones k a + ones k b := by
  induction k generalizing a b with
  | zero => simp [ones]
  | succ k ih =>
    have hlow := Nat.xor_mod_two_eq_one (a := a) (b := b)
    have hhigh := ih (a / 2) (b / 2)
    simp only [ones, Nat.xor_div_two]
    omega

/-! ## The routines of the source -/

/-- A turn of the loop of `get_syndrome` for each place of `junk = 2 ^ (k + 10)`;
the division clears the bit at `junk`, so that the next one is shifted to. -/
def divide : Nat → Nat → Nat
  | 0, pattern => pattern
  | k + 1, pattern =>
    if pattern &&& 0xfffff800 = 0 then pattern
    else
      let junk := 0x800 <<< k
      if junk &&& pattern = 0 then divide k pattern
      else divide k (pattern ^^^ (junk + (junk >>> 1) + (junk >>> 5) + (junk >>> 6) + (junk >>> 7)
        + (junk >>> 9) + (junk >>> 11)))

/-- `get_syndrome`; `junk` starts at `0x00400000`. -/
def getSyndrome (pattern : Nat) : Nat :=
  if pattern ≥ 0x800 then divide 12 pattern else pattern

/-- An entry of `enc_tab`: the data, their overall parity and the remainder. -/
def encTab (code : Nat) : Nat :=
  let word := (code <<< 12) + getSyndrome (code <<< 11)
  word + ((ones 24 word % 2) <<< 11)

set_option maxRecDepth 20000 in
/-- The table `dec_tab`. -/
def decTab : List Nat := [
    0, 1, 2, 3, 4, 5, 6, 7, 8, 9, 10, 11,
    12, 13, 14, 147488, 16, 17, 18, 19, 20, 21, 22, 4268032,
    24, 25, 26, 1574912, 28, 2097920, 294976, 5248, 32, 33, 34, 35,
    36, 37, 38, 147464, 40, 41, 42, 147460, 44, 147458, 147457, 147456,
    48, 49, 50, 33152, 52, 3136, 3149824, 786944, 56, 274432, 4195840, 2162752,
    589952, 5275648, 10496, 147472, 64, 65, 66, 67, 68, 69, 70, 2621568,
    72, 73, 74, 9472, 76, 1118208, 294928, 4196864, 80, 81, 82, 135680,
    84, 3104, 294920, 1065216, 88, 4210816, 294916, 2162720, 294914, 663552, 294912, 294913,
    96, 97, 98, 5505024, 100, 3088, 66304, 45056, 104, 557568, 6272, 2162704,
    6299648, 262528, 1573888, 147520, 112, 3076, 548864, 2162696, 3073, 3072, 4325504, 3074,
    1179904, 2162690, 2162689, 2162688, 20992, 3080, 294944, 2162692, 128, 129, 130, 131,
    132, 133, 134, 2621504, 136, 137, 138, 328192, 140, 43008, 5243136, 5136,
    144, 145, 146, 33056, 148, 1441792, 18944, 5128, 152, 4210752, 2236416, 5124,
    589856, 5122, 5121, 5120, 160, 161, 162, 33040, 164, 4198912, 271360, 1116160,
    168, 3146752, 6208, 4726784, 589840, 262464, 2130432, 147584, 176, 33026, 33025, 33024,
    589832, 2121728, 4325440, 33028, 589828, 133632, 1327104, 33032, 589824, 589825, 589826, 5152,
    192, 193, 194, 2621444, 196, 2621442, 2621441, 2621440, 200, 4210704, 6176, 1212416,
    132608, 262432, 90112, 2621448, 208, 4210696, 1115136, 272384, 12544, 98816, 4325408, 2621456,
    4210689, 4210688, 525056, 4210690, 3147776, 4210692, 295040, 5184, 224, 204800, 6152, 17920,
    1097728, 262408, 4325392, 2621472, 6146, 262404, 6144, 6145, 262401, 262400, 6148, 262402,
    2359808, 1576960, 4325380, 33088, 4325378, 3200, 4325376, 4325377, 41984, 4210720, 6160, 2162816,
    589888, 262416, 4325384, 1057280, 256, 257, 258, 259, 260, 261, 262, 268288,
    264, 265, 266, 9280, 268, 2097680, 5243008, 622592, 272, 273, 274, 32928,
    276, 2097672, 656384, 1065024, 280, 2097668, 86016, 4587520, 2097665, 2097664, 10272, 2097666,
    288, 289, 290, 32912, 292, 1581056, 66112, 6292480, 296, 4261888, 2883584, 1053184,
    37888, 262336, 10256, 147712, 304, 32898, 32897, 32896, 4472832, 200704, 10248, 32900,
    1179712, 541696, 10244, 32904, 10242, 2097696, 10240, 10241, 320, 321, 322, 9224,
    324, 4358144, 66080, 1064976, 328, 9218, 9217, 9216, 542720, 262304, 2232320, 9220,
    336, 851968, 6293504, 1064964, 12416, 1064962, 1064961, 1064960, 1179680, 38912, 524928, 9232,
    4260864, 2097728, 295168, 1064968, 352, 2117632, 66052, 657408, 66050, 262280, 66048, 66049,
    1179664, 262276, 4243456, 9248, 262273, 262272, 66056, 262274, 1179656, 4203008, 267264, 32960,
    2654208, 3328, 66064, 1064992, 1179648, 1179649, 1179650, 2162944, 1179652, 262288, 10304, 4722688,
    384, 385, 386, 32816, 388, 82944, 5242888, 139776, 392, 659456, 5242884, 2115584,
    5242882, 262240, 5242880, 5242881, 400, 32802, 32801, 32800, 12352, 4720640, 2424832, 32804,
    265216, 1122304, 524864, 32808, 180224, 2097792, 5242896, 5376, 416, 32786, 32785, 32784,
    2230272, 262216, 544768, 32788, 25088, 262212, 197632, 32792, 262209, 262208, 5242912, 262210,
    32771, 32770, 32769, 32768, 1050112, 32774, 32773, 32772, 6295552, 32778, 32777, 32776,
    590080, 262224, 10368, 32780, 448, 1051136, 409600, 4263936, 12304, 262184, 35840, 2621696,
    2195456, 262180, 524816, 9344, 262177, 262176, 5242944, 262178, 12292, 2229248, 524808, 32864,
    12288, 12289, 12290, 1065088, 524802, 4210944, 524800, 524801, 12296, 262192, 524804, 198656,
    4719616, 262156, 3153920, 32848, 262153, 262152, 66176, 262154, 262149, 262148, 6400, 262150,
    262145, 262144, 262147, 262146, 83968, 32834, 32833, 32832, 12320, 262168, 4325632, 32836,
    1179776, 262164, 524832, 32840, 262161, 262160, 2114560, 262162, 512, 513, 514, 515,
    516, 517, 518, 1082368, 520, 521, 522, 327808, 524, 2097424, 536576, 4196416,
    528, 529, 530, 135232, 532, 2097416, 18560, 786464, 536, 2097412, 4195360, 57344,
    2097409, 2097408, 1245184, 2097410, 544, 545, 546, 2107392, 548, 4198528, 65856, 786448,
    552, 557120, 4195344, 1052928, 1312768, 74752, 2130048, 147968, 560, 1130496, 4195336, 786436,
    172032, 786434, 786433, 786432, 4195330, 133248, 4195328, 4195329, 20544, 2097440, 4195332, 786440,
    576, 577, 578, 135184, 580, 286720, 65824, 4196360, 584, 557088, 3162112, 4196356,
    132224, 4196354, 4196353, 4196352, 592, 135170, 135169, 135168, 5767168, 98432, 2106368, 135172,
    75776, 1311744, 524672, 135176, 20512, 2097472, 295424, 4196368, 608, 557064, 65796, 17536,
    65794, 3276800, 65792, 65793, 557057, 557056, 401408, 557058, 20496, 557060, 65800, 4196384,
    2359424, 4202752, 1083392, 135200, 20488, 3584, 65808, 786496, 20484, 557072, 4195392, 2163200,
    20480, 20481, 20482, 1056896, 640, 641, 642, 327688, 644, 4198432, 18448, 139520,
    648, 327682, 327681, 327680, 132160, 1589248, 2129952, 327684, 656, 533504, 18436, 7340032,
    18434, 98368, 18432, 18433, 1085440, 133152, 524608, 327696, 4464640, 2097536, 18440, 5632,
    672, 4198404, 1703936, 17472, 4198401, 4198400, 2129928, 4198402, 24832, 133136, 2129924, 327712,
    2129922, 4198408, 2129920, 2129921, 2359360, 133128, 77824, 33536, 1049856, 4198416, 18464, 786560,
    133121, 133120, 4195456, 133122, 590336, 133124, 2129936, 1056832, 704, 1050880, 4235264, 17440,
    132104, 98320, 1314816, 2621952, 132100, 2109440, 524560, 327744, 132096, 132097, 132098, 4196480,
    2359328, 98308, 524552, 135296, 98305, 98304, 18496, 98306, 524546, 4211200, 524544, 524545,
    132112, 98312, 524548, 1056800, 2359312, 17410, 17409, 17408, 534528, 4198464, 65920, 17412,
    5308416, 557184, 6656, 17416, 132128, 262912, 2129984, 1056784, 2359296, 2359297, 2359298, 17424,
    2359300, 98336, 4325888, 1056776, 2359304, 133184, 524576, 1056772, 20608, 1056770, 1056769, 1056768,
    768, 769, 770, 4734976, 772, 2097176, 65632, 139392, 776, 2097172, 165888, 1052704,
    2097169, 2097168, 279552, 2097170, 784, 2097164, 1318912, 68608, 2097161, 2097160, 4231168, 2097162,
    2097157, 2097156, 524480, 2097158, 2097153, 2097152, 2097155, 2097154, 800, 394240, 65604, 1052680,
    65602, 51200, 65600, 65601, 24704, 1052674, 1052673, 1052672, 4849664, 2097200, 65608, 1052676,
    530432, 4202560, 2244608, 33408, 1049728, 2097192, 65616, 786688, 360448, 2097188, 4195584, 1052688,
    2097185, 2097184, 10752, 2097186, 832, 1050752, 65572, 2392064, 65570, 529408, 65568, 65569,
    4460544, 212992, 524432, 9728, 1089536, 2097232, 65576, 4196608, 50176, 4202528, 524424, 135424,
    395264, 2097224, 65584, 1065472, 524418, 2097220, 524416, 524417, 2097217, 2097216, 524420, 2097218,
    65542, 4202512, 65540, 65541, 65538, 65539, 65536, 65537, 2100224, 557312, 65548, 1052736,
    65546, 262784, 65544, 65545, 4202497, 4202496, 65556, 4202498, 65554, 4202500, 65552, 65553,
    1180160, 4202504, 524448, 280576, 20736, 2097248, 65560, 164864, 896, 1050688, 2102272, 139268,
    819200, 139266, 139265, 139264, 24608, 4228096, 524368, 327936, 71680, 2097296, 5243392, 139272,
    4390912, 282624, 524360, 33312, 1049632, 2097288, 18688, 139280, 524354, 2097284, 524352, 524353,
    2097281, 2097280, 524356, 2097282, 24584, 2686976, 4458496, 33296, 1049616, 4198656, 65728, 139296,
    24576, 24577, 24578, 1052800, 24580, 262720, 2130176, 527360, 1049604, 33282, 33281, 33280,
    1049600, 1049601, 1049602, 33284, 24592, 133376, 524384, 33288, 1049608, 2097312, 397312, 4276224,
    1050625, 1050624, 524312, 1050626, 6307840, 1050628, 65696, 139328, 524306, 1050632, 524304, 524305,
    132352, 262688, 524308, 53248, 524298, 1050640, 524296, 524297, 12800, 98560, 524300, 4457472,
    524290, 524291, 524288, 524289, 524294, 2097344, 524292, 524293, 167936, 1050656, 65668, 17664,
    65666, 262664, 65664, 65665, 24640, 262660, 524336, 6422528, 262657, 262656, 65672, 262658,
    2359552, 4202624, 524328, 33344, 1049664, 671744, 65680, 2103296, 524322, 70656, 524320, 524321,
    4229120, 262672, 524324, 1057024, 1024, 1025, 1026, 1027, 1028, 1029, 1030, 1081856,
    1032, 1033, 1034, 8512, 1036, 4980736, 2164736, 4240, 1040, 1041, 1042, 2375680,
    1044, 2144, 655616, 4232, 1048, 229376, 4194848, 4228, 1073152, 4226, 4225, 4224,
    1056, 1057, 1058, 593920, 1060, 2128, 270464, 6291712, 1064, 3145856, 4194832, 296960,
    37120, 74240, 1572928, 148480, 1072, 2116, 4194824, 1187840, 2113, 2112, 114688, 2114,
    4194818, 540928, 4194816, 4194817, 2490368, 2120, 4194820, 4256, 1088, 1089, 1090, 8456,
    1092, 2096, 4214784, 458752, 1096, 8450, 8449, 8448, 131712, 2146304, 1572896, 8452,
    1104, 2084, 1114240, 4751360, 2081, 2080, 2105856, 2082, 2625536, 1311232, 149504, 8464,
    4260096, 2088, 295936, 4288, 1120, 2068, 2260992, 17024, 2065, 2064, 1572872, 2066,
    344064, 4329472, 1572868, 8480, 1572866, 2072, 1572864, 1572865, 2053, 2052, 266496, 2054,
    2049, 2048, 2051, 2050, 41088, 2060, 4194880, 2163712, 2057, 2056, 1572880, 2058,
    1152, 1153, 1154, 4327424, 1156, 82176, 270368, 4120, 1160, 3145760, 573440, 4116,
    131648, 4114, 4113, 4112, 1168, 532992, 1114176, 4108, 6324224, 4106, 4105, 4104,
    264448, 4102, 4101, 4100, 4099, 4098, 4097, 4096, 1184, 3145736, 270340, 16960,
    270338, 688128, 270336, 270337, 3145729, 3145728, 196864, 3145730, 4212736, 3145732, 270344, 4144,
    151552, 4521984, 2623488, 34048, 1049344, 2240, 270352, 4136, 41024, 3145744, 4194944, 4132,
    590848, 4130, 4129, 4128, 1216, 299008, 1114128, 16928, 131592, 5251072, 35072, 2622464,
    131588, 591872, 6553600, 8576, 131584, 131585, 131586, 4176, 1114114, 2228480, 1114112, 1114113,
    802816, 2208, 1114116, 4168, 40992, 4211712, 1114120, 4164, 131600, 4162, 4161, 4160,
    4718848, 16898, 16897, 16896, 2166784, 2192, 270400, 16900, 40976, 3145792, 7168, 16904,
    131616, 263424, 1572992, 4292608, 40968, 2180, 1114144, 16912, 2177, 2176, 4326400, 2178,
    40960, 40961, 40962, 917504, 40964, 2184, 2113792, 4192, 1280, 1281, 1282, 8264,
    1284, 82048, 655376, 6291488, 1288, 8258, 8257, 8256, 36896, 1181696, 279040, 8260,
    1296, 5246976, 655364, 68096, 655362, 303104, 655360, 655361, 264320, 540704, 3178496, 8272,
    4259904, 2098688, 655368, 4480, 1312, 393728, 1067008, 6291460, 36872, 6291458, 6291457, 6291456,
    36868, 540688, 196736, 8288, 36864, 36865, 36866, 6291464, 2170880, 540680, 266304, 33920,
    1049216, 2368, 655392, 6291472, 540673, 540672, 4195072, 540674, 36880, 540676, 11264, 1376256,
    1344, 8202, 8201, 8200, 3407872, 528896, 34944, 8204, 8195, 8194, 8193, 8192,
    4259856, 8198, 8197, 8196, 49664, 2228352, 266272, 8216, 4259848, 2336, 655424, 1065984,
    4259844, 8210, 8209, 8208, 4259840, 4259841, 4259842, 8212, 4718720, 1146880, 266256, 8232,
    155648, 2320, 67072, 6291520, 2099712, 8226, 8225, 8224, 36928, 263296, 1573120, 8228,
    266242, 2308, 266240, 266241, 2305, 2304, 266244, 2306, 1180672, 540736, 266248, 8240,
    4259872, 2312, 2113664, 164352, 1408, 81924, 2101760, 1835008, 81921, 81920, 34880, 81922,
    264208, 4227584, 196640, 8384, 2629632, 81928, 5243904, 4368, 264200, 2228288, 4218880, 33824,
    1049120, 81936, 655488, 4360, 264192, 264193, 264194, 4356, 264196, 4354, 4353, 4352,
    4718656, 14336, 196616, 33808, 1049104, 81952, 270592, 6291584, 196610, 3145984, 196608, 196609,
    36992, 263232, 196612, 526848, 1049092, 33794, 33793, 33792, 1049088, 1049089, 1049090, 33796,
    264224, 540800, 196624, 33800, 1049096, 4333568, 2113600, 4384, 4718624, 2228240, 34820, 8328,
    34818, 81984, 34816, 34817, 1069056, 8322, 8321, 8320, 131840, 263200, 34824, 8324,
    2228225, 2228224, 1114368, 2228226, 13312, 2228228, 34832, 4456960, 264256, 2228232, 525824, 8336,
    4259968, 1605632, 2113568, 4416, 4718592, 4718593, 4718594, 17152, 4718596, 263176, 34848, 1183744,
    4718600, 263172, 196672, 8352, 263169, 263168, 2113552, 263170, 4718608, 2228256, 266368, 33856,
    1049152, 2432, 2113544, 598016, 41216, 70144, 2113540, 5244928, 2113538, 263184, 2113536, 2113537,
    1536, 1537, 1538, 1081348, 1540, 1081346, 1081345, 1081344, 1544, 22528, 4194352, 2752512,
    131264, 73760, 278784, 1081352, 1552, 532608, 4194344, 67840, 331776, 4341760, 2105408, 1081360,
    4194338, 1310784, 4194336, 4194337, 559104, 2098432, 4194340, 4736, 1568, 393472, 4194328, 16576,
    2637824, 73736, 137216, 1081376, 4194322, 73732, 4194320, 4194321, 73729, 73728, 4194324, 73730,
    4194314, 2134016, 4194312, 4194313, 1048960, 2624, 4194316, 787456, 4194306, 4194307, 4194304, 4194305,
    4194310, 73744, 4194308, 4194309, 1600, 6356992, 788480, 16544, 131208, 528640, 2105360, 1081408,
    131204, 1310736, 102400, 8960, 131200, 131201, 131202, 4197376, 49408, 1310728, 2105348, 136192,
    2105346, 2592, 2105344, 2105345, 1310721, 1310720, 4194400, 1310722, 131216, 1310724, 2105352, 606208,
    1060864, 16514, 16513, 16512, 4489216, 2576, 66816, 16516, 2099456, 558080, 4194384, 16520,
    131232, 73792, 1573376, 2363392, 720896, 2564, 4194376, 16528, 2561, 2560, 2105376, 2562,
    4194370, 1310752, 4194368, 4194369, 21504, 2568, 4194372, 164096, 1664, 532496, 2101504, 16480,
    131144, 2361344, 4784128, 1081472, 131140, 4227328, 1058816, 328704, 131136, 131137, 131138, 4624,
    532481, 532480, 425984, 532482, 1048864, 532484, 19456, 4616, 2179072, 532488, 4194464, 4612,
    131152, 4610, 4609, 4608, 100352, 16450, 16449, 16448, 1048848, 4199424, 270848, 16452,
    790528, 3146240, 4194448, 16456, 131168, 73856, 2130944, 526592, 1048836, 532512, 4194440, 16464,
    1048832, 1048833, 1048834, 2293760, 4194434, 134144, 4194432, 4194433, 1048840, 311296, 4194436, 4640,
    131084, 16418, 16417, 16416, 131080, 131081, 131082, 16420, 131076, 131077, 131078, 16424,
    131072, 131073, 131074, 131075, 4200448, 532544, 1114624, 16432, 131096, 99328, 2105472, 4456704,
    131092, 1310848, 525568, 2131968, 131088, 131089, 131090, 4672, 16387, 16386, 16385, 16384,
    131112, 16390, 16389, 16388, 131108, 16394, 16393, 16392, 131104, 131105, 131106, 16396,
    2360320, 16402, 16401, 16400, 1048896, 2688, 561152, 16404, 41472, 69888, 4194496, 16408,
    131120, 6815744, 329728, 1057792, 1792, 393248, 2101376, 67600, 4204544, 528448, 278536, 1081600,
    1638400, 4227200, 278532, 8768, 278530, 2098192, 278528, 278529, 49216, 67586, 67585, 67584,
    1048736, 2098184, 655872, 67588, 143360, 2098180, 4194592, 67592, 2098177, 2098176, 278544, 2098178,
    393217, 393216, 565248, 393218, 1048720, 393220, 66624, 6291968, 2099264, 393224, 4194576, 1053696,
    37376, 73984, 278560, 526464, 1048708, 393232, 4194568, 67616, 1048704, 1048705, 1048706, 28672,
    4194562, 541184, 4194560, 4194561, 1048712, 2098208, 4194564, 163904, 49168, 528388, 5373952, 8712,
    528385, 528384, 66592, 528386, 2099232, 8706, 8705, 8704, 131456, 528392, 278592, 8708,
    49152, 49153, 49154, 67648, 49156, 528400, 2105600, 4456576, 49160, 1310976, 525440, 8720,
    4260352, 2098240, 1054720, 163872, 2099208, 393280, 66564, 16768, 66562, 528416, 66560, 66561,
    2099200, 2099201, 2099202, 8736, 2099204, 5259264, 66568, 163856, 49184, 4203520, 266752, 3670016,
    1048768, 2816, 66576, 163848, 2099216, 69760, 4194624, 163844, 794624, 163842, 163841, 163840,
    2101250, 4227080, 2101248, 2101249, 1048624, 82432, 2101252, 140288, 4227073, 4227072, 2101256, 4227074,
    131392, 4227076, 278656, 526368, 1048612, 532736, 2101264, 67712, 1048608, 1048609, 1048610, 4456512,
    264704, 4227088, 525376, 1196032, 1048616, 2098304, 106496, 4864, 1048596, 393344, 2101280, 16704,
    1048592, 1048593, 1048594, 526344, 25600, 4227104, 197120, 526340, 1048600, 526338, 526337, 526336,
    1048580, 1048581, 1048582, 34304, 1048576, 1048577, 1048578, 1048579, 1048588, 69696, 4194688, 2367488,
    1048584, 1048585, 1048586, 526352, 335872, 1051648, 2101312, 16672, 131336, 528512, 35328, 4456464,
    131332, 4227136, 525328, 8832, 131328, 131329, 131330, 3211264, 49280, 2228736, 525320, 4456452,
    1048672, 4456450, 4456449, 4456448, 525314, 69664, 525312, 525313, 131344, 26624, 525316, 4456456,
    4719104, 16642, 16641, 16640, 1048656, 2138112, 66688, 16644, 2099328, 69648, 1343488, 16648,
    131360, 263680, 4206592, 526400, 1048644, 69640, 141312, 16656, 1048640, 1048641, 1048642, 4456480,
    69633, 69632, 525344, 69634, 1048648, 69636, 2114048, 163968]

/-- The bits of a received word without the one of the overall parity. -/
def coded (received : Nat) : Nat :=
  ((received >>> 1) &&& 0xfffff800) + (received &&& 0x7ff)

/-- What `GolayDec` sets `*num_errors` to. -/
def numErrors (syndrome : Nat) : Nat :=
  iNumOnes (syndrome &&& 0xff) + iNumOnes ((syndrome >>> 8) &&& 0xff) +
    iNumOnes ((syndrome >>> 16) &&& 0xff) + iNumOnes ((syndrome >>> 24) &&& 0xff)

/-- `GolayDec`: the data of the corrected word and the number of errors. -/
def golayDec (received : Nat) : Nat × Nat :=
  let received := coded received
  let syndrome := getSyndrome received
  ((received ^^^ decTab.getD syndrome 0) >>> 11, numErrors syndrome)

/-! ## The remainder -/

/-- The division without the exit of the loop. -/
def reduce : Nat → Nat → Nat
  | 0, pattern => pattern
  | k + 1, pattern => reduce k (if pattern.testBit (k + 11) then pattern ^^^ (0xc75 <<< k) else pattern)

theorem junk_eq (k : Nat) :
    0x800 <<< k + ((0x800 <<< k) >>> 1) + ((0x800 <<< k) >>> 5) + ((0x800 <<< k) >>> 6) +
      ((0x800 <<< k) >>> 7) + ((0x800 <<< k) >>> 9) + ((0x800 <<< k) >>> 11) = 0xc75 <<< k := by
  simp only [Nat.shiftLeft_eq, Nat.shiftRight_eq_div_pow]
  omega

theorem junk_and (k pattern : Nat) : (0x800 <<< k) &&& pattern = 0 ↔ pattern.testBit (k + 11) = false := by
  have hjunk : 0x800 <<< k = 2 ^ (k + 11) := by
    rw [Nat.shiftLeft_eq, Nat.pow_add, Nat.mul_comm]
  rw [hjunk, Nat.and_comm, Nat.and_two_pow]
  cases pattern.testBit (k + 11) <;> simp

theorem mask_testBit : (∀ i < 21, (0xfffff800 : Nat).testBit (i + 11) = true) ∧
    ∀ i < 11, (0xfffff800 : Nat).testBit i = false := by decide

theorem testBit_of_and {pattern i : Nat} (h : pattern &&& 0xfffff800 = 0) (hi : i < 21) :
    pattern.testBit (i + 11) = false := by
  have hbit : (pattern &&& 0xfffff800).testBit (i + 11) = false := by rw [h, Nat.zero_testBit]
  simpa [Nat.testBit_and, mask_testBit.1 i hi] using hbit

variable {k pattern a b : Nat}

theorem reduce_of_clear (h : ∀ i < k, pattern.testBit (i + 11) = false) :
    reduce k pattern = pattern := by
  induction k with
  | zero => rfl
  | succ k ih =>
    rw [reduce, h k (by omega)]
    exact ih fun i hi => h i (by omega)

theorem divide_eq (hk : k ≤ 12) (pattern : Nat) : divide k pattern = reduce k pattern := by
  induction k generalizing pattern with
  | zero => rfl
  | succ k ih =>
    rw [divide]
    split
    · next hclear => exact (reduce_of_clear fun i hi => testBit_of_and hclear (by omega)).symm
    · simp only [junk_and, junk_eq, ih (by omega), reduce]
      cases pattern.testBit (k + 11) <;> simp

theorem reduce_of_lt (h : pattern < 2 ^ 11) : reduce k pattern = pattern :=
  reduce_of_clear fun i _ =>
    Nat.testBit_lt_two_pow (lt_of_lt_of_le h (Nat.pow_le_pow_right (by omega) (by omega)))

theorem getSyndrome_eq (pattern : Nat) : getSyndrome pattern = reduce 12 pattern := by
  rw [getSyndrome]
  split
  · exact divide_eq le_rfl pattern
  · exact (reduce_of_lt (by omega)).symm

theorem reduce_xor (k a b : Nat) : reduce k (a ^^^ b) = reduce k a ^^^ reduce k b := by
  induction k generalizing a b with
  | zero => rfl
  | succ k ih =>
    simp only [reduce, ← ih, Nat.testBit_xor]
    congr 1
    cases a.testBit (k + 11) <;> cases b.testBit (k + 11) <;> simp <;> grind

theorem reduce_lt (h : pattern < 2 ^ (k + 11)) : reduce k pattern < 2 ^ 11 := by
  induction k generalizing pattern with
  | zero => simpa [reduce] using h
  | succ k ih =>
    rw [show k + 1 + 11 = k + 12 by omega] at h
    rw [reduce]
    refine ih (Nat.lt_pow_two_of_testBit _ fun i hi => ?_)
    have hgen : 0xc75 <<< k < 2 ^ (k + 12) := by
      have hpos := Nat.two_pow_pos k
      rw [Nat.shiftLeft_eq, Nat.pow_add]
      omega
    obtain rfl | hgt : i = k + 11 ∨ k + 12 ≤ i := by omega
    · split
      · next hset => simp [Nat.testBit_xor, hset, Nat.testBit_shiftLeft]; decide
      · next hclear => simpa using hclear
    · have hpow : 2 ^ (k + 12) ≤ 2 ^ i := Nat.pow_le_pow_right (by omega) hgt
      have hpattern : pattern.testBit i = false := Nat.testBit_lt_two_pow (by omega)
      have hzero : (0xc75 <<< k).testBit i = false := Nat.testBit_lt_two_pow (by omega)
      split <;> simp [Nat.testBit_xor, hpattern, hzero]

/-! ## The coded bits -/

theorem coded_eq {received : Nat} (h : received < 2 ^ 24) :
    coded received = 2 ^ 11 * (received / 2 ^ 12) + received % 2 ^ 11 := by
  have hlow : received &&& 0x7ff = received % 2 ^ 11 := Nat.and_two_pow_sub_one_eq_mod received 11
  have hhigh : (received >>> 1) &&& 0xfffff800 = 2 ^ 11 * (received / 2 ^ 12) := by
    rw [Nat.mul_comm, ← Nat.shiftLeft_eq, ← Nat.shiftRight_eq_div_pow]
    apply Nat.eq_of_testBit_eq
    intro i
    simp only [Nat.testBit_and, Nat.testBit_shiftRight, Nat.testBit_shiftLeft]
    by_cases hlt : i < 11
    · simp [mask_testBit.2 i hlt, Nat.not_le.mpr hlt]
    · obtain ⟨j, rfl⟩ : ∃ j, i = j + 11 := ⟨i - 11, by omega⟩
      have hplace : 12 + (j + 11 - 11) = 1 + (j + 11) := by omega
      rw [hplace]
      by_cases hj : j < 21
      · simp [mask_testBit.1 j hj]
      · have hzero : received.testBit (1 + (j + 11)) = false :=
          Nat.testBit_lt_two_pow (lt_of_lt_of_le h (Nat.pow_le_pow_right (by omega) (by omega)))
        simp [hzero]
  rw [coded, hlow, hhigh]

theorem eq_of_parts (k : Nat) (hhigh : a / 2 ^ k = b / 2 ^ k) (hlow : a % 2 ^ k = b % 2 ^ k) :
    a = b := by
  rw [← Nat.div_add_mod a (2 ^ k), hhigh, hlow, Nat.div_add_mod]

theorem add_eq_xor (hb : b < 2 ^ k) : 2 ^ k * a + b = (2 ^ k * a) ^^^ b := by
  have hpos : 0 < 2 ^ k := Nat.two_pow_pos k
  apply eq_of_parts k
  · rw [Nat.xor_div_two_pow, Nat.mul_add_div hpos, Nat.mul_div_cancel_left _ hpos, Nat.div_eq_of_lt hb]
    simp
  · rw [Nat.xor_mod_two_pow, Nat.mul_add_mod, Nat.mul_mod_right, Nat.mod_eq_of_lt hb]
    simp

theorem coded_xor (ha : a < 2 ^ 24) (hb : b < 2 ^ 24) : coded (a ^^^ b) = coded a ^^^ coded b := by
  rw [coded_eq ha, coded_eq hb, coded_eq (Nat.xor_lt_two_pow ha hb)]
  have hlow : ∀ n : Nat, n % 2 ^ 11 < 2 ^ 11 := fun n => Nat.mod_lt n (by omega)
  have hmul : ∀ n : Nat, 2 ^ 11 * n = n <<< 11 := fun n => by rw [Nat.shiftLeft_eq, Nat.mul_comm]
  rw [add_eq_xor (hlow a), add_eq_xor (hlow b), add_eq_xor (hlow _), Nat.xor_mod_two_pow, Nat.xor_div_two_pow]
  simp only [hmul, Nat.shiftLeft_xor_distrib]
  ac_rfl

/-! ## Decoding a header with flipped bits -/

/-- The check bits of the data. -/
def check (data : Nat) : Nat := getSyndrome (data <<< 11)

theorem check_lt {data : Nat} (h : data < 4096) : check data < 2 ^ 11 := by
  rw [check, getSyndrome_eq]
  refine reduce_lt ?_
  rw [Nat.shiftLeft_eq]
  omega

theorem encTab_eq (data : Nat) : encTab data =
    data * 2 ^ 12 + check data + ones 24 (data * 2 ^ 12 + check data) % 2 * 2 ^ 11 := by
  simp only [encTab, check, Nat.shiftLeft_eq]

theorem encTab_lt {data : Nat} (h : data < 4096) : encTab data < 2 ^ 24 := by
  have hcheck := check_lt h
  rw [encTab_eq]
  omega

theorem coded_encTab {data : Nat} (h : data < 4096) : coded (encTab data) = (data <<< 11) ^^^ check data := by
  have hcheck := check_lt h
  rw [coded_eq (encTab_lt h), Nat.shiftLeft_eq, Nat.mul_comm data, ← add_eq_xor hcheck]
  rw [encTab_eq]
  omega

theorem getSyndrome_encTab {data : Nat} (h : data < 4096) : getSyndrome (coded (encTab data)) = 0 := by
  have hself : reduce 12 (check data) = check data := reduce_of_lt (check_lt h)
  rw [coded_encTab h, getSyndrome_eq, reduce_xor, hself, check, getSyndrome_eq, Nat.xor_self]

theorem numErrors_eq (syndrome : Nat) : numErrors syndrome = ones 32 syndrome := by
  have hbyte : ∀ n : Nat, iNumOnes (n &&& 0xff) = ones 8 n := fun n => by
    rw [show n &&& 0xff = n % 2 ^ 8 from Nat.and_two_pow_sub_one_eq_mod n 8]
    exact ones_mod 8 n
  have hsplit : ones 32 syndrome = ones 8 syndrome + (ones 8 (syndrome / 2 ^ 8) +
      (ones 8 (syndrome / 2 ^ 16) + ones 8 (syndrome / 2 ^ 24))) := by
    rw [show 32 = 8 + (8 + (8 + 8)) from rfl, ones_add, ones_add, ones_add]
    simp only [Nat.div_div_eq_div_mul, ← Nat.pow_add]
  simp only [numErrors, hbyte, hsplit, Nat.shiftRight_eq_div_pow]
  omega

/-- The bits of a header word flipped on the line: at most three of the coded ones. -/
structure Flips where
  mask : Nat
  lt : mask < 2 ^ 24
  parity_kept : mask.testBit 11 = false
  few : ones 24 mask ≤ 3

namespace Flips

/-- The flipped bits of the data. -/
def data (f : Flips) : Nat := f.mask / 2 ^ 12

/-- The flipped check bits. -/
def checkBits (f : Flips) : Nat := f.mask % 2 ^ 11

theorem data_lt (f : Flips) : f.data < 4096 := by
  have := f.lt
  rw [data]
  omega

theorem checkBits_lt (f : Flips) : f.checkBits < 2 ^ 11 := Nat.mod_lt _ (by omega)

theorem coded_mask (f : Flips) : coded f.mask = (f.data <<< 11) ^^^ f.checkBits := by
  rw [coded_eq f.lt, Nat.shiftLeft_eq, Nat.mul_comm f.data, ← add_eq_xor f.checkBits_lt]
  rfl

theorem ones_le (f : Flips) : ones 12 f.data + ones 11 f.checkBits ≤ 3 := by
  have hsplit : ones 24 f.mask = ones 11 f.mask + (ones 1 (f.mask / 2 ^ 11) + ones 12 f.data) := by
    rw [show 24 = 11 + (1 + 12) from rfl, ones_add, ones_add, data, Nat.div_div_eq_div_mul, ← Nat.pow_add]
  have hfew := f.few
  rw [checkBits, ones_mod]
  omega

theorem coded_flipped (f : Flips) {data : Nat} (h : data < 4096) :
    coded (encTab data ^^^ f.mask) = coded (encTab data) ^^^ coded f.mask :=
  coded_xor (encTab_lt h) f.lt

theorem getSyndrome_flipped (f : Flips) {data : Nat} (h : data < 4096) :
    getSyndrome (coded (encTab data ^^^ f.mask)) = check f.data ^^^ f.checkBits := by
  have hclean := getSyndrome_encTab h
  rw [getSyndrome_eq] at hclean
  rw [f.coded_flipped h, getSyndrome_eq, reduce_xor, hclean, f.coded_mask, reduce_xor,
    reduce_of_lt f.checkBits_lt, check, getSyndrome_eq]
  simp

end Flips

/-- The words below `2 ^ k` with up to `w` ones, in order. -/
def fewOnes : Nat → Nat → List Nat
  | 0, _ => [0]
  | k + 1, 0 => fewOnes k 0
  | k + 1, w + 1 => fewOnes k (w + 1) ++ (fewOnes k w).map (2 ^ k + ·)

theorem mem_fewOnes : ∀ {k w m : Nat}, m < 2 ^ k → ones k m ≤ w → m ∈ fewOnes k w
  | 0, w, m, hm, _ => by
    obtain rfl : m = 0 := by omega
    rw [fewOnes]
    exact List.mem_singleton_self 0
  | k + 1, w, m, hm, hw => by
    have hsplit : ones (k + 1) m = ones k (m % 2 ^ k) + ones 1 (m / 2 ^ k) := by rw [ones_add, ones_mod]
    have hmod : m % 2 ^ k < 2 ^ k := Nat.mod_lt _ (Nat.two_pow_pos k)
    have hparts := Nat.mod_add_div m (2 ^ k)
    by_cases htop : m < 2 ^ k
    · rw [Nat.mod_eq_of_lt htop] at hsplit
      have hmem : m ∈ fewOnes k w := mem_fewOnes htop (by omega)
      cases w with
      | zero => exact hmem
      | succ w => exact List.mem_append_left _ hmem
    · have hdiv : m / 2 ^ k = 1 := by
        rw [Nat.div_eq_iff (Nat.two_pow_pos k)]
        rw [Nat.pow_succ] at hm
        omega
      rw [hdiv] at hsplit hparts
      have hone : ones 1 1 = 1 := rfl
      cases w with
      | zero => omega
      | succ w =>
        refine List.mem_append_right _ (List.mem_map.mpr ⟨m % 2 ^ k, mem_fewOnes hmod (by omega), ?_⟩)
        omega

/-- The table, from a place on, holds each of these places at itself. -/
def holdsSelf : List Nat → Nat → List Nat → Bool
  | _, _, [] => true
  | [], _, _ :: _ => false
  | e :: tab, idx, m :: ms =>
    if m = idx then e == m && holdsSelf tab (idx + 1) ms else holdsSelf tab (idx + 1) (m :: ms)

theorem getElem?_of_holdsSelf : ∀ {tab : List Nat} {idx : Nat} {ms : List Nat}, holdsSelf tab idx ms = true →
    ∀ m ∈ ms, ∃ i, m = idx + i ∧ tab[i]? = some m
  | _, _, [], _, m, hm => absurd hm List.not_mem_nil
  | [], _, _ :: _, h, _, _ => by simp [holdsSelf] at h
  | e :: tab, idx, n :: ms, h, m, hm => by
    rw [holdsSelf] at h
    by_cases hn : n = idx
    · rw [if_pos hn, Bool.and_eq_true, beq_iff_eq] at h
      rcases List.mem_cons.mp hm with rfl | hm
      · exact ⟨0, hn, by rw [List.getElem?_cons_zero, h.1]⟩
      · obtain ⟨i, rfl, hi⟩ := getElem?_of_holdsSelf h.2 m hm
        exact ⟨i + 1, by omega, by rw [List.getElem?_cons_succ, hi]⟩
    · rw [if_neg hn] at h
      obtain ⟨i, rfl, hi⟩ := getElem?_of_holdsSelf h m hm
      exact ⟨i + 1, by omega, by rw [List.getElem?_cons_succ, hi]⟩

set_option maxRecDepth 20000 in
theorem decTab_few : holdsSelf decTab 0 (fewOnes 11 3) = true := by decide +kernel

theorem getD_decTab {s : Nat} (hs : s < 2 ^ 11) (hfew : ones 11 s ≤ 3) : decTab.getD s 0 = s := by
  obtain ⟨i, hi, helem⟩ := getElem?_of_holdsSelf decTab_few s (mem_fewOnes hs hfew)
  rw [Nat.zero_add] at hi
  rw [List.getD_eq_getElem?_getD, hi, helem, Option.getD_some, hi]

/-- Data of up to three bits have so many check bits that the code word has seven
ones at least. -/
theorem distance : ∀ data ∈ fewOnes 12 3, data ≠ 0 → 7 ≤ ones 12 data + ones 11 (check data) := by decide +kernel

theorem ones_check {data : Nat} (h : data < 4096) (hfew : ones 12 data ≤ 3) (hne : data ≠ 0) :
    7 ≤ ones 12 data + ones 11 (check data) :=
  distance data (mem_fewOnes h hfew) hne

theorem ones_of_lt {k n m : Nat} (hm : m < 2 ^ k) : ones (k + n) m = ones k m := by
  rw [ones_add, Nat.div_eq_of_lt hm, ones_zero_right, Nat.add_zero]

/-- **Flips in the check bits are corrected**, and counted as they are. -/
theorem golayDec_checkBits (f : Flips) {data : Nat} (h : data < 4096) (hdata : f.data = 0) :
    golayDec (encTab data ^^^ f.mask) = (data, ones 11 f.checkBits) := by
  have hsyndrome : getSyndrome (coded (encTab data ^^^ f.mask)) = f.checkBits := by
    rw [f.getSyndrome_flipped h, hdata]
    exact Nat.zero_xor _
  have hfew := f.ones_le
  have hcorrect : coded (encTab data ^^^ f.mask) ^^^ f.checkBits = (data <<< 11) ^^^ check data := by
    rw [f.coded_flipped h, coded_encTab h, f.coded_mask, hdata]
    simp [Nat.xor_assoc]
  have hshift : ((data <<< 11) ^^^ check data) >>> 11 = data := by
    rw [Nat.shiftLeft_eq, Nat.mul_comm, ← add_eq_xor (check_lt h), Nat.shiftRight_eq_div_pow]
    have := check_lt h
    omega
  have hcount : numErrors f.checkBits = ones 11 f.checkBits := by
    rw [numErrors_eq, show 32 = 11 + 21 from rfl, ones_of_lt f.checkBits_lt]
  rw [golayDec]
  simp only [hsyndrome, getD_decTab f.checkBits_lt (by omega), hcorrect, hshift, hcount]

/-- **A flip in the data is counted as four errors at least.** -/
theorem golayDec_data (f : Flips) {data : Nat} (h : data < 4096) (hdata : f.data ≠ 0) :
    4 ≤ (golayDec (encTab data ^^^ f.mask)).2 := by
  have hfew := f.ones_le
  have hdist := ones_check f.data_lt (by omega) hdata
  have hlt : check f.data ^^^ f.checkBits < 2 ^ 11 := Nat.xor_lt_two_pow (check_lt f.data_lt) f.checkBits_lt
  have htriangle := ones_xor 11 (check f.data ^^^ f.checkBits) f.checkBits
  rw [Nat.xor_assoc, Nat.xor_self, Nat.xor_zero] at htriangle
  have hcount : (golayDec (encTab data ^^^ f.mask)).2 = ones 11 (check f.data ^^^ f.checkBits) := by
    rw [golayDec]
    simp only [f.getSyndrome_flipped h]
    rw [numErrors_eq, show 32 = 11 + 21 from rfl, ones_of_lt hlt]
  omega

end Ftke.Golay

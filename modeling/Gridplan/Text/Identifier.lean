import Gridplan.Text.Classes

namespace Gridplan.Text

/-- Where runs of characters that may start an identifier begin and end, in turn. -/
def identifierStartBounds : Array Nat := #[
  65,91, 95,96, 97,123, 170,171, 181,182, 186,187, 192,215, 216,247, 248,706, 710,722, 736,741,
  748,749, 750,751, 880,885, 886,888, 891,894, 895,896, 902,903, 904,907, 908,909, 910,930,
  931,1014, 1015,1154, 1162,1328, 1329,1367, 1369,1370, 1376,1417, 1488,1515, 1519,1523, 1568,1611,
  1646,1648, 1649,1748, 1749,1750, 1765,1767, 1774,1776, 1786,1789, 1791,1792, 1808,1809,
  1810,1840, 1869,1958, 1969,1970, 1994,2027, 2036,2038, 2042,2043, 2048,2070, 2074,2075,
  2084,2085, 2088,2089, 2112,2137, 2144,2155, 2160,2184, 2185,2191, 2208,2250, 2308,2362,
  2365,2366, 2384,2385, 2392,2402, 2417,2433, 2437,2445, 2447,2449, 2451,2473, 2474,2481,
  2482,2483, 2486,2490, 2493,2494, 2510,2511, 2524,2526, 2527,2530, 2544,2546, 2556,2557,
  2565,2571, 2575,2577, 2579,2601, 2602,2609, 2610,2612, 2613,2615, 2616,2618, 2649,2653,
  2654,2655, 2674,2677, 2693,2702, 2703,2706, 2707,2729, 2730,2737, 2738,2740, 2741,2746,
  2749,2750, 2768,2769, 2784,2786, 2809,2810, 2821,2829, 2831,2833, 2835,2857, 2858,2865,
  2866,2868, 2869,2874, 2877,2878, 2908,2910, 2911,2914, 2929,2930, 2947,2948, 2949,2955,
  2958,2961, 2962,2966, 2969,2971, 2972,2973, 2974,2976, 2979,2981, 2984,2987, 2990,3002,
  3024,3025, 3077,3085, 3086,3089, 3090,3113, 3114,3130, 3133,3134, 3160,3163, 3165,3166,
  3168,3170, 3200,3201, 3205,3213, 3214,3217, 3218,3241, 3242,3252, 3253,3258, 3261,3262,
  3293,3295, 3296,3298, 3313,3315, 3332,3341, 3342,3345, 3346,3387, 3389,3390, 3406,3407,
  3412,3415, 3423,3426, 3450,3456, 3461,3479, 3482,3506, 3507,3516, 3517,3518, 3520,3527,
  3585,3633, 3634,3635, 3648,3655, 3713,3715, 3716,3717, 3718,3723, 3724,3748, 3749,3750,
  3751,3761, 3762,3763, 3773,3774, 3776,3781, 3782,3783, 3804,3808, 3840,3841, 3904,3912,
  3913,3949, 3976,3981, 4096,4139, 4159,4160, 4176,4182, 4186,4190, 4193,4194, 4197,4199,
  4206,4209, 4213,4226, 4238,4239, 4256,4294, 4295,4296, 4301,4302, 4304,4347, 4348,4681,
  4682,4686, 4688,4695, 4696,4697, 4698,4702, 4704,4745, 4746,4750, 4752,4785, 4786,4790,
  4792,4799, 4800,4801, 4802,4806, 4808,4823, 4824,4881, 4882,4886, 4888,4955, 4992,5008,
  5024,5110, 5112,5118, 5121,5741, 5743,5760, 5761,5787, 5792,5867, 5870,5881, 5888,5906,
  5919,5938, 5952,5970, 5984,5997, 5998,6001, 6016,6068, 6103,6104, 6108,6109, 6176,6265,
  6272,6313, 6314,6315, 6320,6390, 6400,6431, 6480,6510, 6512,6517, 6528,6572, 6576,6602,
  6656,6679, 6688,6741, 6823,6824, 6917,6964, 6981,6989, 7043,7073, 7086,7088, 7098,7142,
  7168,7204, 7245,7248, 7258,7294, 7296,7305, 7312,7355, 7357,7360, 7401,7405, 7406,7412,
  7413,7415, 7418,7419, 7424,7616, 7680,7958, 7960,7966, 7968,8006, 8008,8014, 8016,8024,
  8025,8026, 8027,8028, 8029,8030, 8031,8062, 8064,8117, 8118,8125, 8126,8127, 8130,8133,
  8134,8141, 8144,8148, 8150,8156, 8160,8173, 8178,8181, 8182,8189, 8305,8306, 8319,8320,
  8336,8349, 8450,8451, 8455,8456, 8458,8468, 8469,8470, 8472,8478, 8484,8485, 8486,8487,
  8488,8489, 8490,8506, 8508,8512, 8517,8522, 8526,8527, 8544,8585, 11264,11493, 11499,11503,
  11506,11508, 11520,11558, 11559,11560, 11565,11566, 11568,11624, 11631,11632, 11648,11671,
  11680,11687, 11688,11695, 11696,11703, 11704,11711, 11712,11719, 11720,11727, 11728,11735,
  11736,11743, 12293,12296, 12321,12330, 12337,12342, 12344,12349, 12353,12439, 12445,12448,
  12449,12539, 12540,12544, 12549,12592, 12593,12687, 12704,12736, 12784,12800, 13312,19904,
  19968,42125, 42192,42238, 42240,42509, 42512,42528, 42538,42540, 42560,42607, 42623,42654,
  42656,42736, 42775,42784, 42786,42889, 42891,42955, 42960,42962, 42963,42964, 42965,42970,
  42994,43010, 43011,43014, 43015,43019, 43020,43043, 43072,43124, 43138,43188, 43250,43256,
  43259,43260, 43261,43263, 43274,43302, 43312,43335, 43360,43389, 43396,43443, 43471,43472,
  43488,43493, 43494,43504, 43514,43519, 43520,43561, 43584,43587, 43588,43596, 43616,43639,
  43642,43643, 43646,43696, 43697,43698, 43701,43703, 43705,43710, 43712,43713, 43714,43715,
  43739,43742, 43744,43755, 43762,43765, 43777,43783, 43785,43791, 43793,43799, 43808,43815,
  43816,43823, 43824,43867, 43868,43882, 43888,44003, 44032,55204, 55216,55239, 55243,55292,
  63744,64110, 64112,64218, 64256,64263, 64275,64280, 64285,64286, 64287,64297, 64298,64311,
  64312,64317, 64318,64319, 64320,64322, 64323,64325, 64326,64434, 64467,64606, 64612,64830,
  64848,64912, 64914,64968, 65008,65018, 65137,65138, 65139,65140, 65143,65144, 65145,65146,
  65147,65148, 65149,65150, 65151,65277, 65313,65339, 65345,65371, 65382,65438, 65440,65471,
  65474,65480, 65482,65488, 65490,65496, 65498,65501, 65536,65548, 65549,65575, 65576,65595,
  65596,65598, 65599,65614, 65616,65630, 65664,65787, 65856,65909, 66176,66205, 66208,66257,
  66304,66336, 66349,66379, 66384,66422, 66432,66462, 66464,66500, 66504,66512, 66513,66518,
  66560,66718, 66736,66772, 66776,66812, 66816,66856, 66864,66916, 66928,66939, 66940,66955,
  66956,66963, 66964,66966, 66967,66978, 66979,66994, 66995,67002, 67003,67005, 67072,67383,
  67392,67414, 67424,67432, 67456,67462, 67463,67505, 67506,67515, 67584,67590, 67592,67593,
  67594,67638, 67639,67641, 67644,67645, 67647,67670, 67680,67703, 67712,67743, 67808,67827,
  67828,67830, 67840,67862, 67872,67898, 67968,68024, 68030,68032, 68096,68097, 68112,68116,
  68117,68120, 68121,68150, 68192,68221, 68224,68253, 68288,68296, 68297,68325, 68352,68406,
  68416,68438, 68448,68467, 68480,68498, 68608,68681, 68736,68787, 68800,68851, 68864,68900,
  69248,69290, 69296,69298, 69376,69405, 69415,69416, 69424,69446, 69488,69506, 69552,69573,
  69600,69623, 69635,69688, 69745,69747, 69749,69750, 69763,69808, 69840,69865, 69891,69927,
  69956,69957, 69959,69960, 69968,70003, 70006,70007, 70019,70067, 70081,70085, 70106,70107,
  70108,70109, 70144,70162, 70163,70188, 70272,70279, 70280,70281, 70282,70286, 70287,70302,
  70303,70313, 70320,70367, 70405,70413, 70415,70417, 70419,70441, 70442,70449, 70450,70452,
  70453,70458, 70461,70462, 70480,70481, 70493,70498, 70656,70709, 70727,70731, 70751,70754,
  70784,70832, 70852,70854, 70855,70856, 71040,71087, 71128,71132, 71168,71216, 71236,71237,
  71296,71339, 71352,71353, 71424,71451, 71488,71495, 71680,71724, 71840,71904, 71935,71943,
  71945,71946, 71948,71956, 71957,71959, 71960,71984, 71999,72000, 72001,72002, 72096,72104,
  72106,72145, 72161,72162, 72163,72164, 72192,72193, 72203,72243, 72250,72251, 72272,72273,
  72284,72330, 72349,72350, 72368,72441, 72704,72713, 72714,72751, 72768,72769, 72818,72848,
  72960,72967, 72968,72970, 72971,73009, 73030,73031, 73056,73062, 73063,73065, 73066,73098,
  73112,73113, 73440,73459, 73648,73649, 73728,74650, 74752,74863, 74880,75076, 77712,77809,
  77824,78895, 82944,83527, 92160,92729, 92736,92767, 92784,92863, 92880,92910, 92928,92976,
  92992,92996, 93027,93048, 93053,93072, 93760,93824, 93952,94027, 94032,94033, 94099,94112,
  94176,94178, 94179,94180, 94208,100344, 100352,101590, 101632,101641, 110576,110580,
  110581,110588, 110589,110591, 110592,110883, 110928,110931, 110948,110952, 110960,111356,
  113664,113771, 113776,113789, 113792,113801, 113808,113818, 119808,119893, 119894,119965,
  119966,119968, 119970,119971, 119973,119975, 119977,119981, 119982,119994, 119995,119996,
  119997,120004, 120005,120070, 120071,120075, 120077,120085, 120086,120093, 120094,120122,
  120123,120127, 120128,120133, 120134,120135, 120138,120145, 120146,120486, 120488,120513,
  120514,120539, 120540,120571, 120572,120597, 120598,120629, 120630,120655, 120656,120687,
  120688,120713, 120714,120745, 120746,120771, 120772,120780, 122624,122655, 123136,123181,
  123191,123198, 123214,123215, 123536,123566, 123584,123628, 124896,124903, 124904,124908,
  124909,124911, 124912,124927, 124928,125125, 125184,125252, 125259,125260, 126464,126468,
  126469,126496, 126497,126499, 126500,126501, 126503,126504, 126505,126515, 126516,126520,
  126521,126522, 126523,126524, 126530,126531, 126535,126536, 126537,126538, 126539,126540,
  126541,126544, 126545,126547, 126548,126549, 126551,126552, 126553,126554, 126555,126556,
  126557,126558, 126559,126560, 126561,126563, 126564,126565, 126567,126571, 126572,126579,
  126580,126584, 126585,126589, 126590,126591, 126592,126602, 126603,126620, 126625,126628,
  126629,126634, 126635,126652, 131072,173792, 173824,177977, 177984,178206, 178208,183970,
  183984,191457, 194560,195102, 196608,201547]

/-- The same for characters that may only follow. -/
def identifierRestBounds : Array Nat := #[
  48,58, 183,184, 768,880, 903,904, 1155,1160, 1425,1470, 1471,1472, 1473,1475, 1476,1478,
  1479,1480, 1552,1563, 1611,1642, 1648,1649, 1750,1757, 1759,1765, 1767,1769, 1770,1774,
  1776,1786, 1809,1810, 1840,1867, 1958,1969, 1984,1994, 2027,2036, 2045,2046, 2070,2074,
  2075,2084, 2085,2088, 2089,2094, 2137,2140, 2200,2208, 2250,2274, 2275,2308, 2362,2365,
  2366,2384, 2385,2392, 2402,2404, 2406,2416, 2433,2436, 2492,2493, 2494,2501, 2503,2505,
  2507,2510, 2519,2520, 2530,2532, 2534,2544, 2558,2559, 2561,2564, 2620,2621, 2622,2627,
  2631,2633, 2635,2638, 2641,2642, 2662,2674, 2677,2678, 2689,2692, 2748,2749, 2750,2758,
  2759,2762, 2763,2766, 2786,2788, 2790,2800, 2810,2816, 2817,2820, 2876,2877, 2878,2885,
  2887,2889, 2891,2894, 2901,2904, 2914,2916, 2918,2928, 2946,2947, 3006,3011, 3014,3017,
  3018,3022, 3031,3032, 3046,3056, 3072,3077, 3132,3133, 3134,3141, 3142,3145, 3146,3150,
  3157,3159, 3170,3172, 3174,3184, 3201,3204, 3260,3261, 3262,3269, 3270,3273, 3274,3278,
  3285,3287, 3298,3300, 3302,3312, 3328,3332, 3387,3389, 3390,3397, 3398,3401, 3402,3406,
  3415,3416, 3426,3428, 3430,3440, 3457,3460, 3530,3531, 3535,3541, 3542,3543, 3544,3552,
  3558,3568, 3570,3572, 3633,3634, 3635,3643, 3655,3663, 3664,3674, 3761,3762, 3763,3773,
  3784,3790, 3792,3802, 3864,3866, 3872,3882, 3893,3894, 3895,3896, 3897,3898, 3902,3904,
  3953,3973, 3974,3976, 3981,3992, 3993,4029, 4038,4039, 4139,4159, 4160,4170, 4182,4186,
  4190,4193, 4194,4197, 4199,4206, 4209,4213, 4226,4238, 4239,4254, 4957,4960, 4969,4978,
  5906,5910, 5938,5941, 5970,5972, 6002,6004, 6068,6100, 6109,6110, 6112,6122, 6155,6158,
  6159,6170, 6313,6314, 6432,6444, 6448,6460, 6470,6480, 6608,6619, 6679,6684, 6741,6751,
  6752,6781, 6783,6794, 6800,6810, 6832,6846, 6847,6863, 6912,6917, 6964,6981, 6992,7002,
  7019,7028, 7040,7043, 7073,7086, 7088,7098, 7142,7156, 7204,7224, 7232,7242, 7248,7258,
  7376,7379, 7380,7401, 7405,7406, 7412,7413, 7415,7418, 7616,7680, 8255,8257, 8276,8277,
  8400,8413, 8417,8418, 8421,8433, 11503,11506, 11647,11648, 11744,11776, 12330,12336, 12441,12443,
  42528,42538, 42607,42608, 42612,42622, 42654,42656, 42736,42738, 43010,43011, 43014,43015,
  43019,43020, 43043,43048, 43052,43053, 43136,43138, 43188,43206, 43216,43226, 43232,43250,
  43263,43274, 43302,43310, 43335,43348, 43392,43396, 43443,43457, 43472,43482, 43493,43494,
  43504,43514, 43561,43575, 43587,43588, 43596,43598, 43600,43610, 43643,43646, 43696,43697,
  43698,43701, 43703,43705, 43710,43712, 43713,43714, 43755,43760, 43765,43767, 44003,44011,
  44012,44014, 44016,44026, 64286,64287, 65024,65040, 65056,65072, 65075,65077, 65101,65104,
  65296,65306, 65343,65344, 65438,65440, 66045,66046, 66272,66273, 66422,66427, 66720,66730,
  68097,68100, 68101,68103, 68108,68112, 68152,68155, 68159,68160, 68325,68327, 68900,68904,
  68912,68922, 69291,69293, 69446,69457, 69506,69510, 69632,69635, 69688,69703, 69734,69745,
  69747,69749, 69759,69763, 69808,69819, 69826,69827, 69872,69882, 69888,69891, 69927,69941,
  69942,69952, 69957,69959, 70003,70004, 70016,70019, 70067,70081, 70089,70093, 70094,70106,
  70188,70200, 70206,70207, 70367,70379, 70384,70394, 70400,70404, 70459,70461, 70462,70469,
  70471,70473, 70475,70478, 70487,70488, 70498,70500, 70502,70509, 70512,70517, 70709,70727,
  70736,70746, 70750,70751, 70832,70852, 70864,70874, 71087,71094, 71096,71105, 71132,71134,
  71216,71233, 71248,71258, 71339,71352, 71360,71370, 71453,71468, 71472,71482, 71724,71739,
  71904,71914, 71984,71990, 71991,71993, 71995,71999, 72000,72001, 72002,72004, 72016,72026,
  72145,72152, 72154,72161, 72164,72165, 72193,72203, 72243,72250, 72251,72255, 72263,72264,
  72273,72284, 72330,72346, 72751,72759, 72760,72768, 72784,72794, 72850,72872, 72873,72887,
  73009,73015, 73018,73019, 73020,73022, 73023,73030, 73031,73032, 73040,73050, 73098,73103,
  73104,73106, 73107,73112, 73120,73130, 73459,73463, 92768,92778, 92864,92874, 92912,92917,
  92976,92983, 93008,93018, 94031,94032, 94033,94088, 94095,94099, 94180,94181, 94192,94194,
  113821,113823, 118528,118574, 118576,118599, 119141,119146, 119149,119155, 119163,119171,
  119173,119180, 119210,119214, 119362,119365, 120782,120832, 121344,121399, 121403,121453,
  121461,121462, 121476,121477, 121499,121504, 121505,121520, 122880,122887, 122888,122905,
  122907,122914, 122915,122917, 122918,122923, 123184,123191, 123200,123210, 123566,123567,
  123628,123642, 125136,125143, 125252,125259, 125264,125274, 130032,130042, 917760,918000]

def isIdentifierStart (c : Char) : Bool :=
  if c.toNat < 128 then c.isAlpha || c == '_' else inRuns identifierStartBounds c.toNat

def isIdentifierRest (c : Char) : Bool :=
  isIdentifierStart c ||
    (if c.toNat < 128 then c.isDigit else inRuns identifierRestBounds c.toNat)

/-- Where runs of numerals and letters that stand in words but start no identifier begin and end, in
turn. -/
def numeralBounds : Array Nat := #[
  178,180, 185,186, 188,191, 890,891, 2548,2554, 2930,2936, 3056,3059, 3192,3199, 3416,3423,
  3440,3449, 3635,3636, 3763,3764, 3882,3892, 4969,4989, 6128,6138, 6618,6619, 8304,8305,
  8308,8314, 8320,8330, 8528,8544, 8585,8586, 9312,9372, 9450,9472, 10102,10132, 11517,11518,
  11823,11824, 12690,12694, 12832,12842, 12872,12880, 12881,12896, 12928,12938, 12977,12992,
  43056,43062, 64606,64612, 65018,65020, 65136,65137, 65138,65139, 65140,65141, 65142,65143,
  65144,65145, 65146,65147, 65148,65149, 65150,65151, 65438,65440, 65799,65844, 65909,65913,
  65930,65932, 66273,66300, 66336,66340, 67672,67680, 67705,67712, 67751,67760, 67835,67840,
  67862,67868, 68028,68030, 68032,68048, 68050,68096, 68160,68169, 68221,68223, 68253,68256,
  68331,68336, 68440,68448, 68472,68480, 68521,68528, 68858,68864, 69216,69247, 69405,69415,
  69457,69461, 69573,69580, 69714,69734, 70113,70133, 71482,71484, 71914,71923, 72794,72813,
  73664,73685, 93019,93026, 93824,93847, 119520,119540, 119648,119673, 125127,125136,
  126065,126124, 126125,126128, 126129,126133, 126209,126254, 126255,126270, 127232,127245]

def startSignBounds : Array Nat := #[6277, 6279, 8472, 8473, 8494, 8495]

/-- Whether a character stands in words: a letter, a digit or another numeral, or the low line. -/
def isWord (c : Char) : Bool :=
  if c.toNat < 128 then c.isAlphanum || c == '_'
  else
    (isIdentifierStart c && !inRuns startSignBounds c.toNat) || (digitValue? c).isSome ||
      inRuns numeralBounds c.toNat

end Gridplan.Text

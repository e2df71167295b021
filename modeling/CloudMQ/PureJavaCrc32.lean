import CloudMQ.Crc
import CloudMQ.Lists
import CloudMQ.Message

/-!
`PureJavaCrc32`: the CRC of a message's body, eight bytes at a time.

The tables of the source are as they stand there: the word with number `i` of `T8_k` is what is left
of the byte `i` when it has gone through the register with `k` bytes behind it. Bytes of Java are
signed, so every index is cut out of an `int` by two shifts.
-/

namespace CloudMQ.PureJavaCrc32

open CloudMQ.Buffer CloudMQ.Lists CloudMQ.Message CloudMQ.Crc

/-! ### The tables -/

/-- The words of a table that stands in rows of eight. -/
def rows (table : List ℕ) : List ℕ :=
  table.flatMap fun row => (List.range 8).map fun i => row / 2 ^ (32 * (7 - i)) % 2 ^ 32

def T8_0 : List ℕ := rows [
  0x00000000_77073096_EE0E612C_990951BA_076DC419_706AF48F_E963A535_9E6495A3,
  0x0EDB8832_79DCB8A4_E0D5E91E_97D2D988_09B64C2B_7EB17CBD_E7B82D07_90BF1D91,
  0x1DB71064_6AB020F2_F3B97148_84BE41DE_1ADAD47D_6DDDE4EB_F4D4B551_83D385C7,
  0x136C9856_646BA8C0_FD62F97A_8A65C9EC_14015C4F_63066CD9_FA0F3D63_8D080DF5,
  0x3B6E20C8_4C69105E_D56041E4_A2677172_3C03E4D1_4B04D447_D20D85FD_A50AB56B,
  0x35B5A8FA_42B2986C_DBBBC9D6_ACBCF940_32D86CE3_45DF5C75_DCD60DCF_ABD13D59,
  0x26D930AC_51DE003A_C8D75180_BFD06116_21B4F4B5_56B3C423_CFBA9599_B8BDA50F,
  0x2802B89E_5F058808_C60CD9B2_B10BE924_2F6F7C87_58684C11_C1611DAB_B6662D3D,
  0x76DC4190_01DB7106_98D220BC_EFD5102A_71B18589_06B6B51F_9FBFE4A5_E8B8D433,
  0x7807C9A2_0F00F934_9609A88E_E10E9818_7F6A0DBB_086D3D2D_91646C97_E6635C01,
  0x6B6B51F4_1C6C6162_856530D8_F262004E_6C0695ED_1B01A57B_8208F4C1_F50FC457,
  0x65B0D9C6_12B7E950_8BBEB8EA_FCB9887C_62DD1DDF_15DA2D49_8CD37CF3_FBD44C65,
  0x4DB26158_3AB551CE_A3BC0074_D4BB30E2_4ADFA541_3DD895D7_A4D1C46D_D3D6F4FB,
  0x4369E96A_346ED9FC_AD678846_DA60B8D0_44042D73_33031DE5_AA0A4C5F_DD0D7CC9,
  0x5005713C_270241AA_BE0B1010_C90C2086_5768B525_206F85B3_B966D409_CE61E49F,
  0x5EDEF90E_29D9C998_B0D09822_C7D7A8B4_59B33D17_2EB40D81_B7BD5C3B_C0BA6CAD,
  0xEDB88320_9ABFB3B6_03B6E20C_74B1D29A_EAD54739_9DD277AF_04DB2615_73DC1683,
  0xE3630B12_94643B84_0D6D6A3E_7A6A5AA8_E40ECF0B_9309FF9D_0A00AE27_7D079EB1,
  0xF00F9344_8708A3D2_1E01F268_6906C2FE_F762575D_806567CB_196C3671_6E6B06E7,
  0xFED41B76_89D32BE0_10DA7A5A_67DD4ACC_F9B9DF6F_8EBEEFF9_17B7BE43_60B08ED5,
  0xD6D6A3E8_A1D1937E_38D8C2C4_4FDFF252_D1BB67F1_A6BC5767_3FB506DD_48B2364B,
  0xD80D2BDA_AF0A1B4C_36034AF6_41047A60_DF60EFC3_A867DF55_316E8EEF_4669BE79,
  0xCB61B38C_BC66831A_256FD2A0_5268E236_CC0C7795_BB0B4703_220216B9_5505262F,
  0xC5BA3BBE_B2BD0B28_2BB45A92_5CB36A04_C2D7FFA7_B5D0CF31_2CD99E8B_5BDEAE1D,
  0x9B64C2B0_EC63F226_756AA39C_026D930A_9C0906A9_EB0E363F_72076785_05005713,
  0x95BF4A82_E2B87A14_7BB12BAE_0CB61B38_92D28E9B_E5D5BE0D_7CDCEFB7_0BDBDF21,
  0x86D3D2D4_F1D4E242_68DDB3F8_1FDA836E_81BE16CD_F6B9265B_6FB077E1_18B74777,
  0x88085AE6_FF0F6A70_66063BCA_11010B5C_8F659EFF_F862AE69_616BFFD3_166CCF45,
  0xA00AE278_D70DD2EE_4E048354_3903B3C2_A7672661_D06016F7_4969474D_3E6E77DB,
  0xAED16A4A_D9D65ADC_40DF0B66_37D83BF0_A9BCAE53_DEBB9EC5_47B2CF7F_30B5FFE9,
  0xBDBDF21C_CABAC28A_53B39330_24B4A3A6_BAD03605_CDD70693_54DE5729_23D967BF,
  0xB3667A2E_C4614AB8_5D681B02_2A6F2B94_B40BBE37_C30C8EA1_5A05DF1B_2D02EF8D]

def T8_1 : List ℕ := rows [
  0x00000000_191B3141_32366282_2B2D53C3_646CC504_7D77F445_565AA786_4F4196C7,
  0xC8D98A08_D1C2BB49_FAEFE88A_E3F4D9CB_ACB54F0C_B5AE7E4D_9E832D8E_87981CCF,
  0x4AC21251_53D92310_78F470D3_61EF4192_2EAED755_37B5E614_1C98B5D7_05838496,
  0x821B9859_9B00A918_B02DFADB_A936CB9A_E6775D5D_FF6C6C1C_D4413FDF_CD5A0E9E,
  0x958424A2_8C9F15E3_A7B24620_BEA97761_F1E8E1A6_E8F3D0E7_C3DE8324_DAC5B265,
  0x5D5DAEAA_44469FEB_6F6BCC28_7670FD69_39316BAE_202A5AEF_0B07092C_121C386D,
  0xDF4636F3_C65D07B2_ED705471_F46B6530_BB2AF3F7_A231C2B6_891C9175_9007A034,
  0x179FBCFB_0E848DBA_25A9DE79_3CB2EF38_73F379FF_6AE848BE_41C51B7D_58DE2A3C,
  0xF0794F05_E9627E44_C24F2D87_DB541CC6_94158A01_8D0EBB40_A623E883_BF38D9C2,
  0x38A0C50D_21BBF44C_0A96A78F_138D96CE_5CCC0009_45D73148_6EFA628B_77E153CA,
  0xBABB5D54_A3A06C15_888D3FD6_91960E97_DED79850_C7CCA911_ECE1FAD2_F5FACB93,
  0x7262D75C_6B79E61D_4054B5DE_594F849F_160E1258_0F152319_243870DA_3D23419B,
  0x65FD6BA7_7CE65AE6_57CB0925_4ED03864_0191AEA3_188A9FE2_33A7CC21_2ABCFD60,
  0xAD24E1AF_B43FD0EE_9F12832D_8609B26C_C94824AB_D05315EA_FB7E4629_E2657768,
  0x2F3F79F6_362448B7_1D091B74_04122A35_4B53BCF2_52488DB3_7965DE70_607EEF31,
  0xE7E6F3FE_FEFDC2BF_D5D0917C_CCCBA03D_838A36FA_9A9107BB_B1BC5478_A8A76539,
  0x3B83984B_2298A90A_09B5FAC9_10AECB88_5FEF5D4F_46F46C0E_6DD93FCD_74C20E8C,
  0xF35A1243_EA412302_C16C70C1_D8774180_9736D747_8E2DE606_A500B5C5_BC1B8484,
  0x71418A1A_685ABB5B_4377E898_5A6CD9D9_152D4F1E_0C367E5F_271B2D9C_3E001CDD,
  0xB9980012_A0833153_8BAE6290_92B553D1_DDF4C516_C4EFF457_EFC2A794_F6D996D5,
  0xAE07BCE9_B71C8DA8_9C31DE6B_852AEF2A_CA6B79ED_D37048AC_F85D1B6F_E1462A2E,
  0x66DE36E1_7FC507A0_54E85463_4DF36522_02B2F3E5_1BA9C2A4_30849167_299FA026,
  0xE4C5AEB8_FDDE9FF9_D6F3CC3A_CFE8FD7B_80A96BBC_99B25AFD_B29F093E_AB84387F,
  0x2C1C24B0_350715F1_1E2A4632_07317773_4870E1B4_516BD0F5_7A468336_635DB277,
  0xCBFAD74E_D2E1E60F_F9CCB5CC_E0D7848D_AF96124A_B68D230B_9DA070C8_84BB4189,
  0x03235D46_1A386C07_31153FC4_280E0E85_674F9842_7E54A903_5579FAC0_4C62CB81,
  0x8138C51F_9823F45E_B30EA79D_AA1596DC_E554001B_FC4F315A_D7626299_CE7953D8,
  0x49E14F17_50FA7E56_7BD72D95_62CC1CD4_2D8D8A13_3496BB52_1FBBE891_06A0D9D0,
  0x5E7EF3EC_4765C2AD_6C48916E_7553A02F_3A1236E8_230907A9_0824546A_113F652B,
  0x96A779E4_8FBC48A5_A4911B66_BD8A2A27_F2CBBCE0_EBD08DA1_C0FDDE62_D9E6EF23,
  0x14BCE1BD_0DA7D0FC_268A833F_3F91B27E_70D024B9_69CB15F8_42E6463B_5BFD777A,
  0xDC656BB5_C57E5AF4_EE530937_F7483876_B809AEB1_A1129FF0_8A3FCC33_9324FD72]

def T8_2 : List ℕ := rows [
  0x00000000_01C26A37_0384D46E_0246BE59_0709A8DC_06CBC2EB_048D7CB2_054F1685,
  0x0E1351B8_0FD13B8F_0D9785D6_0C55EFE1_091AF964_08D89353_0A9E2D0A_0B5C473D,
  0x1C26A370_1DE4C947_1FA2771E_1E601D29_1B2F0BAC_1AED619B_18ABDFC2_1969B5F5,
  0x1235F2C8_13F798FF_11B126A6_10734C91_153C5A14_14FE3023_16B88E7A_177AE44D,
  0x384D46E0_398F2CD7_3BC9928E_3A0BF8B9_3F44EE3C_3E86840B_3CC03A52_3D025065,
  0x365E1758_379C7D6F_35DAC336_3418A901_3157BF84_3095D5B3_32D36BEA_331101DD,
  0x246BE590_25A98FA7_27EF31FE_262D5BC9_23624D4C_22A0277B_20E69922_2124F315,
  0x2A78B428_2BBADE1F_29FC6046_283E0A71_2D711CF4_2CB376C3_2EF5C89A_2F37A2AD,
  0x709A8DC0_7158E7F7_731E59AE_72DC3399_7793251C_76514F2B_7417F172_75D59B45,
  0x7E89DC78_7F4BB64F_7D0D0816_7CCF6221_798074A4_78421E93_7A04A0CA_7BC6CAFD,
  0x6CBC2EB0_6D7E4487_6F38FADE_6EFA90E9_6BB5866C_6A77EC5B_68315202_69F33835,
  0x62AF7F08_636D153F_612BAB66_60E9C151_65A6D7D4_6464BDE3_662203BA_67E0698D,
  0x48D7CB20_4915A117_4B531F4E_4A917579_4FDE63FC_4E1C09CB_4C5AB792_4D98DDA5,
  0x46C49A98_4706F0AF_45404EF6_448224C1_41CD3244_400F5873_4249E62A_438B8C1D,
  0x54F16850_55330267_5775BC3E_56B7D609_53F8C08C_523AAABB_507C14E2_51BE7ED5,
  0x5AE239E8_5B2053DF_5966ED86_58A487B1_5DEB9134_5C29FB03_5E6F455A_5FAD2F6D,
  0xE1351B80_E0F771B7_E2B1CFEE_E373A5D9_E63CB35C_E7FED96B_E5B86732_E47A0D05,
  0xEF264A38_EEE4200F_ECA29E56_ED60F461_E82FE2E4_E9ED88D3_EBAB368A_EA695CBD,
  0xFD13B8F0_FCD1D2C7_FE976C9E_FF5506A9_FA1A102C_FBD87A1B_F99EC442_F85CAE75,
  0xF300E948_F2C2837F_F0843D26_F1465711_F4094194_F5CB2BA3_F78D95FA_F64FFFCD,
  0xD9785D60_D8BA3757_DAFC890E_DB3EE339_DE71F5BC_DFB39F8B_DDF521D2_DC374BE5,
  0xD76B0CD8_D6A966EF_D4EFD8B6_D52DB281_D062A404_D1A0CE33_D3E6706A_D2241A5D,
  0xC55EFE10_C49C9427_C6DA2A7E_C7184049_C25756CC_C3953CFB_C1D382A2_C011E895,
  0xCB4DAFA8_CA8FC59F_C8C97BC6_C90B11F1_CC440774_CD866D43_CFC0D31A_CE02B92D,
  0x91AF9640_906DFC77_922B422E_93E92819_96A63E9C_976454AB_9522EAF2_94E080C5,
  0x9FBCC7F8_9E7EADCF_9C381396_9DFA79A1_98B56F24_99770513_9B31BB4A_9AF3D17D,
  0x8D893530_8C4B5F07_8E0DE15E_8FCF8B69_8A809DEC_8B42F7DB_89044982_88C623B5,
  0x839A6488_82580EBF_801EB0E6_81DCDAD1_8493CC54_8551A663_8717183A_86D5720D,
  0xA9E2D0A0_A820BA97_AA6604CE_ABA46EF9_AEEB787C_AF29124B_AD6FAC12_ACADC625,
  0xA7F18118_A633EB2F_A4755576_A5B73F41_A0F829C4_A13A43F3_A37CFDAA_A2BE979D,
  0xB5C473D0_B40619E7_B640A7BE_B782CD89_B2CDDB0C_B30FB13B_B1490F62_B08B6555,
  0xBBD72268_BA15485F_B853F606_B9919C31_BCDE8AB4_BD1CE083_BF5A5EDA_BE9834ED]

def T8_3 : List ℕ := rows [
  0x00000000_B8BC6765_AA09C88B_12B5AFEE_8F629757_37DEF032_256B5FDC_9DD738B9,
  0xC5B428EF_7D084F8A_6FBDE064_D7018701_4AD6BFB8_F26AD8DD_E0DF7733_58631056,
  0x5019579F_E8A530FA_FA109F14_42ACF871_DF7BC0C8_67C7A7AD_75720843_CDCE6F26,
  0x95AD7F70_2D111815_3FA4B7FB_8718D09E_1ACFE827_A2738F42_B0C620AC_087A47C9,
  0xA032AF3E_188EC85B_0A3B67B5_B28700D0_2F503869_97EC5F0C_8559F0E2_3DE59787,
  0x658687D1_DD3AE0B4_CF8F4F5A_7733283F_EAE41086_525877E3_40EDD80D_F851BF68,
  0xF02BF8A1_48979FC4_5A22302A_E29E574F_7F496FF6_C7F50893_D540A77D_6DFCC018,
  0x359FD04E_8D23B72B_9F9618C5_272A7FA0_BAFD4719_0241207C_10F48F92_A848E8F7,
  0x9B14583D_23A83F58_311D90B6_89A1F7D3_1476CF6A_ACCAA80F_BE7F07E1_06C36084,
  0x5EA070D2_E61C17B7_F4A9B859_4C15DF3C_D1C2E785_697E80E0_7BCB2F0E_C377486B,
  0xCB0D0FA2_73B168C7_6104C729_D9B8A04C_446F98F5_FCD3FF90_EE66507E_56DA371B,
  0x0EB9274D_B6054028_A4B0EFC6_1C0C88A3_81DBB01A_3967D77F_2BD27891_936E1FF4,
  0x3B26F703_839A9066_912F3F88_299358ED_B4446054_0CF80731_1E4DA8DF_A6F1CFBA,
  0xFE92DFEC_462EB889_549B1767_EC277002_71F048BB_C94C2FDE_DBF98030_6345E755,
  0x6B3FA09C_D383C7F9_C1366817_798A0F72_E45D37CB_5CE150AE_4E54FF40_F6E89825,
  0xAE8B8873_1637EF16_048240F8_BC3E279D_21E91F24_99557841_8BE0D7AF_335CB0CA,
  0xED59B63B_55E5D15E_47507EB0_FFEC19D5_623B216C_DA874609_C832E9E7_708E8E82,
  0x28ED9ED4_9051F9B1_82E4565F_3A58313A_A78F0983_1F336EE6_0D86C108_B53AA66D,
  0xBD40E1A4_05FC86C1_1749292F_AFF54E4A_322276F3_8A9E1196_982BBE78_2097D91D,
  0x78F4C94B_C048AE2E_D2FD01C0_6A4166A5_F7965E1C_4F2A3979_5D9F9697_E523F1F2,
  0x4D6B1905_F5D77E60_E762D18E_5FDEB6EB_C2098E52_7AB5E937_680046D9_D0BC21BC,
  0x88DF31EA_3063568F_22D6F961_9A6A9E04_07BDA6BD_BF01C1D8_ADB46E36_15080953,
  0x1D724E9A_A5CE29FF_B77B8611_0FC7E174_9210D9CD_2AACBEA8_38191146_80A57623,
  0xD8C66675_607A0110_72CFAEFE_CA73C99B_57A4F122_EF189647_FDAD39A9_45115ECC,
  0x764DEE06_CEF18963_DC44268D_64F841E8_F92F7951_41931E34_5326B1DA_EB9AD6BF,
  0xB3F9C6E9_0B45A18C_19F00E62_A14C6907_3C9B51BE_842736DB_96929935_2E2EFE50,
  0x2654B999_9EE8DEFC_8C5D7112_34E11677_A9362ECE_118A49AB_033FE645_BB838120,
  0xE3E09176_5B5CF613_49E959FD_F1553E98_6C820621_D43E6144_C68BCEAA_7E37A9CF,
  0xD67F4138_6EC3265D_7C7689B3_C4CAEED6_591DD66F_E1A1B10A_F3141EE4_4BA87981,
  0x13CB69D7_AB770EB2_B9C2A15C_017EC639_9CA9FE80_241599E5_36A0360B_8E1C516E,
  0x866616A7_3EDA71C2_2C6FDE2C_94D3B949_090481F0_B1B8E695_A30D497B_1BB12E1E,
  0x43D23E48_FB6E592D_E9DBF6C3_516791A6_CCB0A91F_740CCE7A_66B96194_DE0506F1]

def T8_4 : List ℕ := rows [
  0x00000000_3D6029B0_7AC05360_47A07AD0_F580A6C0_C8E08F70_8F40F5A0_B220DC10,
  0x30704BC1_0D106271_4AB018A1_77D03111_C5F0ED01_F890C4B1_BF30BE61_825097D1,
  0x60E09782_5D80BE32_1A20C4E2_2740ED52_95603142_A80018F2_EFA06222_D2C04B92,
  0x5090DC43_6DF0F5F3_2A508F23_1730A693_A5107A83_98705333_DFD029E3_E2B00053,
  0xC1C12F04_FCA106B4_BB017C64_866155D4_344189C4_0921A074_4E81DAA4_73E1F314,
  0xF1B164C5_CCD14D75_8B7137A5_B6111E15_0431C205_3951EBB5_7EF19165_4391B8D5,
  0xA121B886_9C419136_DBE1EBE6_E681C256_54A11E46_69C137F6_2E614D26_13016496,
  0x9151F347_AC31DAF7_EB91A027_D6F18997_64D15587_59B17C37_1E1106E7_23712F57,
  0x58F35849_659371F9_22330B29_1F532299_AD73FE89_9013D739_D7B3ADE9_EAD38459,
  0x68831388_55E33A38_124340E8_2F236958_9D03B548_A0639CF8_E7C3E628_DAA3CF98,
  0x3813CFCB_0573E67B_42D39CAB_7FB3B51B_CD93690B_F0F340BB_B7533A6B_8A3313DB,
  0x0863840A_3503ADBA_72A3D76A_4FC3FEDA_FDE322CA_C0830B7A_872371AA_BA43581A,
  0x9932774D_A4525EFD_E3F2242D_DE920D9D_6CB2D18D_51D2F83D_167282ED_2B12AB5D,
  0xA9423C8C_9422153C_D3826FEC_EEE2465C_5CC29A4C_61A2B3FC_2602C92C_1B62E09C,
  0xF9D2E0CF_C4B2C97F_8312B3AF_BE729A1F_0C52460F_31326FBF_7692156F_4BF23CDF,
  0xC9A2AB0E_F4C282BE_B362F86E_8E02D1DE_3C220DCE_0142247E_46E25EAE_7B82771E,
  0xB1E6B092_8C869922_CB26E3F2_F646CA42_44661652_79063FE2_3EA64532_03C66C82,
  0x8196FB53_BCF6D2E3_FB56A833_C6368183_74165D93_49767423_0ED60EF3_33B62743,
  0xD1062710_EC660EA0_ABC67470_96A65DC0_248681D0_19E6A860_5E46D2B0_6326FB00,
  0xE1766CD1_DC164561_9BB63FB1_A6D61601_14F6CA11_2996E3A1_6E369971_5356B0C1,
  0x70279F96_4D47B626_0AE7CCF6_3787E546_85A73956_B8C710E6_FF676A36_C2074386,
  0x4057D457_7D37FDE7_3A978737_07F7AE87_B5D77297_88B75B27_CF1721F7_F2770847,
  0x10C70814_2DA721A4_6A075B74_576772C4_E547AED4_D8278764_9F87FDB4_A2E7D404,
  0x20B743D5_1DD76A65_5A7710B5_67173905_D537E515_E857CCA5_AFF7B675_92979FC5,
  0xE915E8DB_D475C16B_93D5BBBB_AEB5920B_1C954E1B_21F567AB_66551D7B_5B3534CB,
  0xD965A31A_E4058AAA_A3A5F07A_9EC5D9CA_2CE505DA_11852C6A_562556BA_6B457F0A,
  0x89F57F59_B49556E9_F3352C39_CE550589_7C75D999_4115F029_06B58AF9_3BD5A349,
  0xB9853498_84E51D28_C34567F8_FE254E48_4C059258_7165BBE8_36C5C138_0BA5E888,
  0x28D4C7DF_15B4EE6F_521494BF_6F74BD0F_DD54611F_E03448AF_A794327F_9AF41BCF,
  0x18A48C1E_25C4A5AE_6264DF7E_5F04F6CE_ED242ADE_D044036E_97E479BE_AA84500E,
  0x4834505D_755479ED_32F4033D_0F942A8D_BDB4F69D_80D4DF2D_C774A5FD_FA148C4D,
  0x78441B9C_4524322C_028448FC_3FE4614C_8DC4BD5C_B0A494EC_F704EE3C_CA64C78C]

def T8_5 : List ℕ := rows [
  0x00000000_CB5CD3A5_4DC8A10B_869472AE_9B914216_50CD91B3_D659E31D_1D0530B8,
  0xEC53826D_270F51C8_A19B2366_6AC7F0C3_77C2C07B_BC9E13DE_3A0A6170_F156B2D5,
  0x03D6029B_C88AD13E_4E1EA390_85427035_9847408D_531B9328_D58FE186_1ED33223,
  0xEF8580F6_24D95353_A24D21FD_6911F258_7414C2E0_BF481145_39DC63EB_F280B04E,
  0x07AC0536_CCF0D693_4A64A43D_81387798_9C3D4720_57619485_D1F5E62B_1AA9358E,
  0xEBFF875B_20A354FE_A6372650_6D6BF5F5_706EC54D_BB3216E8_3DA66446_F6FAB7E3,
  0x047A07AD_CF26D408_49B2A6A6_82EE7503_9FEB45BB_54B7961E_D223E4B0_197F3715,
  0xE82985C0_23755665_A5E124CB_6EBDF76E_73B8C7D6_B8E41473_3E7066DD_F52CB578,
  0x0F580A6C_C404D9C9_4290AB67_89CC78C2_94C9487A_5F959BDF_D901E971_125D3AD4,
  0xE30B8801_28575BA4_AEC3290A_659FFAAF_789ACA17_B3C619B2_35526B1C_FE0EB8B9,
  0x0C8E08F7_C7D2DB52_4146A9FC_8A1A7A59_971F4AE1_5C439944_DAD7EBEA_118B384F,
  0xE0DD8A9A_2B81593F_AD152B91_6649F834_7B4CC88C_B0101B29_36846987_FDD8BA22,
  0x08F40F5A_C3A8DCFF_453CAE51_8E607DF4_93654D4C_58399EE9_DEADEC47_15F13FE2,
  0xE4A78D37_2FFB5E92_A96F2C3C_6233FF99_7F36CF21_B46A1C84_32FE6E2A_F9A2BD8F,
  0x0B220DC1_C07EDE64_46EAACCA_8DB67F6F_90B34FD7_5BEF9C72_DD7BEEDC_16273D79,
  0xE7718FAC_2C2D5C09_AAB92EA7_61E5FD02_7CE0CDBA_B7BC1E1F_31286CB1_FA74BF14,
  0x1EB014D8_D5ECC77D_5378B5D3_98246676_852156CE_4E7D856B_C8E9F7C5_03B52460,
  0xF2E396B5_39BF4510_BF2B37BE_7477E41B_6972D4A3_A22E0706_24BA75A8_EFE6A60D,
  0x1D661643_D63AC5E6_50AEB748_9BF264ED_86F75455_4DAB87F0_CB3FF55E_006326FB,
  0xF135942E_3A69478B_BCFD3525_77A1E680_6AA4D638_A1F8059D_276C7733_EC30A496,
  0x191C11EE_D240C24B_54D4B0E5_9F886340_828D53F8_49D1805D_CF45F2F3_04192156,
  0xF54F9383_3E134026_B8873288_73DBE12D_6EDED195_A5820230_2316709E_E84AA33B,
  0x1ACA1375_D196C0D0_5702B27E_9C5E61DB_815B5163_4A0782C6_CC93F068_07CF23CD,
  0xF6999118_3DC542BD_BB513013_700DE3B6_6D08D30E_A65400AB_20C07205_EB9CA1A0,
  0x11E81EB4_DAB4CD11_5C20BFBF_977C6C1A_8A795CA2_41258F07_C7B1FDA9_0CED2E0C,
  0xFDBB9CD9_36E74F7C_B0733DD2_7B2FEE77_662ADECF_AD760D6A_2BE27FC4_E0BEAC61,
  0x123E1C2F_D962CF8A_5FF6BD24_94AA6E81_89AF5E39_42F38D9C_C467FF32_0F3B2C97,
  0xFE6D9E42_35314DE7_B3A53F49_78F9ECEC_65FCDC54_AEA00FF1_28347D5F_E368AEFA,
  0x16441B82_DD18C827_5B8CBA89_90D0692C_8DD55994_46898A31_C01DF89F_0B412B3A,
  0xFA1799EF_314B4A4A_B7DF38E4_7C83EB41_6186DBF9_AADA085C_2C4E7AF2_E712A957,
  0x15921919_DECECABC_585AB812_93066BB7_8E035B0F_455F88AA_C3CBFA04_089729A1,
  0xF9C19B74_329D48D1_B4093A7F_7F55E9DA_6250D962_A90C0AC7_2F987869_E4C4ABCC]

def T8_6 : List ℕ := rows [
  0x00000000_A6770BB4_979F1129_31E81A9D_F44F2413_52382FA7_63D0353A_C5A73E8E,
  0x33EF4E67_959845D3_A4705F4E_020754FA_C7A06A74_61D761C0_503F7B5D_F64870E9,
  0x67DE9CCE_C1A9977A_F0418DE7_56368653_9391B8DD_35E6B369_040EA9F4_A279A240,
  0x5431D2A9_F246D91D_C3AEC380_65D9C834_A07EF6BA_0609FD0E_37E1E793_9196EC27,
  0xCFBD399C_69CA3228_582228B5_FE552301_3BF21D8F_9D85163B_AC6D0CA6_0A1A0712,
  0xFC5277FB_5A257C4F_6BCD66D2_CDBA6D66_081D53E8_AE6A585C_9F8242C1_39F54975,
  0xA863A552_0E14AEE6_3FFCB47B_998BBFCF_5C2C8141_FA5B8AF5_CBB39068_6DC49BDC,
  0x9B8CEB35_3DFBE081_0C13FA1C_AA64F1A8_6FC3CF26_C9B4C492_F85CDE0F_5E2BD5BB,
  0x440B7579_E27C7ECD_D3946450_75E36FE4_B044516A_16335ADE_27DB4043_81AC4BF7,
  0x77E43B1E_D19330AA_E07B2A37_460C2183_83AB1F0D_25DC14B9_14340E24_B2430590,
  0x23D5E9B7_85A2E203_B44AF89E_123DF32A_D79ACDA4_71EDC610_4005DC8D_E672D739,
  0x103AA7D0_B64DAC64_87A5B6F9_21D2BD4D_E47583C3_42028877_73EA92EA_D59D995E,
  0x8BB64CE5_2DC14751_1C295DCC_BA5E5678_7FF968F6_D98E6342_E86679DF_4E11726B,
  0xB8590282_1E2E0936_2FC613AB_89B1181F_4C162691_EA612D25_DB8937B8_7DFE3C0C,
  0xEC68D02B_4A1FDB9F_7BF7C102_DD80CAB6_1827F438_BE50FF8C_8FB8E511_29CFEEA5,
  0xDF879E4C_79F095F8_48188F65_EE6F84D1_2BC8BA5F_8DBFB1EB_BC57AB76_1A20A0C2,
  0x8816EAF2_2E61E146_1F89FBDB_B9FEF06F_7C59CEE1_DA2EC555_EBC6DFC8_4DB1D47C,
  0xBBF9A495_1D8EAF21_2C66B5BC_8A11BE08_4FB68086_E9C18B32_D82991AF_7E5E9A1B,
  0xEFC8763C_49BF7D88_78576715_DE206CA1_1B87522F_BDF0599B_8C184306_2A6F48B2,
  0xDC27385B_7A5033EF_4BB82972_EDCF22C6_28681C48_8E1F17FC_BFF70D61_198006D5,
  0x47ABD36E_E1DCD8DA_D034C247_7643C9F3_B3E4F77D_1593FCC9_247BE654_820CEDE0,
  0x74449D09_D23396BD_E3DB8C20_45AC8794_800BB91A_267CB2AE_1794A833_B1E3A387,
  0x20754FA0_86024414_B7EA5E89_119D553D_D43A6BB3_724D6007_43A57A9A_E5D2712E,
  0x139A01C7_B5ED0A73_840510EE_22721B5A_E7D525D4_41A22E60_704A34FD_D63D3F49,
  0xCC1D9F8B_6A6A943F_5B828EA2_FDF58516_3852BB98_9E25B02C_AFCDAAB1_09BAA105,
  0xFFF2D1EC_5985DA58_686DC0C5_CE1ACB71_0BBDF5FF_ADCAFE4B_9C22E4D6_3A55EF62,
  0xABC30345_0DB408F1_3C5C126C_9A2B19D8_5F8C2756_F9FB2CE2_C813367F_6E643DCB,
  0x982C4D22_3E5B4696_0FB35C0B_A9C457BF_6C636931_CA146285_FBFC7818_5D8B73AC,
  0x03A0A617_A5D7ADA3_943FB73E_3248BC8A_F7EF8204_519889B0_6070932D_C6079899,
  0x304FE870_9638E3C4_A7D0F959_01A7F2ED_C400CC63_6277C7D7_539FDD4A_F5E8D6FE,
  0x647E3AD9_C209316D_F3E12BF0_55962044_90311ECA_3646157E_07AE0FE3_A1D90457,
  0x579174BE_F1E67F0A_C00E6597_66796E23_A3DE50AD_05A95B19_34414184_92364A30]

def T8_7 : List ℕ := rows [
  0x00000000_CCAA009E_4225077D_8E8F07E3_844A0EFA_48E00E64_C66F0987_0AC50919,
  0xD3E51BB5_1F4F1B2B_91C01CC8_5D6A1C56_57AF154F_9B0515D1_158A1232_D92012AC,
  0x7CBB312B_B01131B5_3E9E3656_F23436C8_F8F13FD1_345B3F4F_BAD438AC_767E3832,
  0xAF5E2A9E_63F42A00_ED7B2DE3_21D12D7D_2B142464_E7BE24FA_69312319_A59B2387,
  0xF9766256_35DC62C8_BB53652B_77F965B5_7D3C6CAC_B1966C32_3F196BD1_F3B36B4F,
  0x2A9379E3_E639797D_68B67E9E_A41C7E00_AED97719_62737787_ECFC7064_205670FA,
  0x85CD537D_496753E3_C7E85400_0B42549E_01875D87_CD2D5D19_43A25AFA_8F085A64,
  0x562848C8_9A824856_140D4FB5_D8A74F2B_D2624632_1EC846AC_9047414F_5CED41D1,
  0x299DC2ED_E537C273_6BB8C590_A712C50E_ADD7CC17_617DCC89_EFF2CB6A_2358CBF4,
  0xFA78D958_36D2D9C6_B85DDE25_74F7DEBB_7E32D7A2_B298D73C_3C17D0DF_F0BDD041,
  0x5526F3C6_998CF358_1703F4BB_DBA9F425_D16CFD3C_1DC6FDA2_9349FA41_5FE3FADF,
  0x86C3E873_4A69E8ED_C4E6EF0E_084CEF90_0289E689_CE23E617_40ACE1F4_8C06E16A,
  0xD0EBA0BB_1C41A025_92CEA7C6_5E64A758_54A1AE41_980BAEDF_1684A93C_DA2EA9A2,
  0x030EBB0E_CFA4BB90_412BBC73_8D81BCED_8744B5F4_4BEEB56A_C561B289_09CBB217,
  0xAC509190_60FA910E_EE7596ED_22DF9673_281A9F6A_E4B09FF4_6A3F9817_A6959889,
  0x7FB58A25_B31F8ABB_3D908D58_F13A8DC6_FBFF84DF_37558441_B9DA83A2_7570833C,
  0x533B85DA_9F918544_111E82A7_DDB48239_D7718B20_1BDB8BBE_95548C5D_59FE8CC3,
  0x80DE9E6F_4C749EF1_C2FB9912_0E51998C_04949095_C83E900B_46B197E8_8A1B9776,
  0x2F80B4F1_E32AB46F_6DA5B38C_A10FB312_ABCABA0B_6760BA95_E9EFBD76_2545BDE8,
  0xFC65AF44_30CFAFDA_BE40A839_72EAA8A7_782FA1BE_B485A120_3A0AA6C3_F6A0A65D,
  0xAA4DE78C_66E7E712_E868E0F1_24C2E06F_2E07E976_E2ADE9E8_6C22EE0B_A088EE95,
  0x79A8FC39_B502FCA7_3B8DFB44_F727FBDA_FDE2F2C3_3148F25D_BFC7F5BE_736DF520,
  0xD6F6D6A7_1A5CD639_94D3D1DA_5879D144_52BCD85D_9E16D8C3_1099DF20_DC33DFBE,
  0x0513CD12_C9B9CD8C_4736CA6F_8B9CCAF1_8159C3E8_4DF3C376_C37CC495_0FD6C40B,
  0x7AA64737_B60C47A9_3883404A_F42940D4_FEEC49CD_32464953_BCC94EB0_70634E2E,
  0xA9435C82_65E95C1C_EB665BFF_27CC5B61_2D095278_E1A352E6_6F2C5505_A386559B,
  0x061D761C_CAB77682_44387161_889271FF_825778E6_4EFD7878_C0727F9B_0CD87F05,
  0xD5F86DA9_19526D37_97DD6AD4_5B776A4A_51B26353_9D1863CD_1397642E_DF3D64B0,
  0x83D02561_4F7A25FF_C1F5221C_0D5F2282_079A2B9B_CB302B05_45BF2CE6_89152C78,
  0x50353ED4_9C9F3E4A_121039A9_DEBA3937_D47F302E_18D530B0_965A3753_5AF037CD,
  0xFF6B144A_33C114D4_BD4E1337_71E413A9_7B211AB0_B78B1A2E_39041DCD_F5AE1D53,
  0x2C8E0FFF_E0240F61_6EAB0882_A201081C_A8C40105_646E019B_EAE10678_264B06E6]
def T : List (BitVec 32) :=
  [T8_0, T8_1, T8_2, T8_3, T8_4, T8_5, T8_6, T8_7].flatten.map (BitVec.ofNat 32)

/-! ### The checksum -/

/-- `T[i]`; the indices that occur are less than the length of the table. -/
def lookup (i : BitVec 32) : BitVec 32 := T.getD i.toNat 0

/-- A byte as an `int`. -/
def toInt (b : UInt8) : BitVec 32 := b.toBitVec.signExtend 32

/-- `update(int b)`, and one line of the loop that is unrolled. -/
def updateByte (crc b : BitVec 32) : BitVec 32 :=
  (crc >>> 8) ^^^ lookup (((crc ^^^ b) <<< 24) >>> 24)

/-- The body of the loop, on the bytes from `i` on; `none` when an index is out of bounds. -/
def block (b : Bytes) (i : ℕ) (localCrc : BitVec 32) : Option (BitVec 32) := do
  let b0 ← b[i]?
  let b1 ← b[i + 1]?
  let b2 ← b[i + 2]?
  let b3 ← b[i + 3]?
  let x := localCrc ^^^
    ((((toInt b0 <<< 24) >>> 24) + ((toInt b1 <<< 24) >>> 16)) +
      (((toInt b2 <<< 24) >>> 8) + (toInt b3 <<< 24)))
  let b4 ← b[i + 4]?
  let b5 ← b[i + 5]?
  let b6 ← b[i + 6]?
  let b7 ← b[i + 7]?
  return ((lookup (((x <<< 24) >>> 24) + 0x700) ^^^ lookup (((x <<< 16) >>> 24) + 0x600)) ^^^
      (lookup (((x <<< 8) >>> 24) + 0x500) ^^^ lookup ((x >>> 24) + 0x400))) ^^^
    ((lookup (((toInt b4 <<< 24) >>> 24) + 0x300) ^^^
        lookup (((toInt b5 <<< 24) >>> 24) + 0x200)) ^^^
      (lookup (((toInt b6 <<< 24) >>> 24) + 0x100) ^^^ lookup ((toInt b7 <<< 24) >>> 24)))

/-- The loop, for the number of rounds that are left, and where it ends. -/
def blocks (b : Bytes) : ℕ → ℕ → BitVec 32 → Option (ℕ × BitVec 32)
  | 0, i, localCrc => some (i, localCrc)
  | n + 1, i, localCrc => (block b i localCrc).bind fun localCrc => blocks b n (i + 8) localCrc

/-- The cases of the switch, from the one of the remainder on. -/
def remainders (b : Bytes) : ℕ → ℕ → BitVec 32 → Option (BitVec 32)
  | 0, _, localCrc => some localCrc
  | n + 1, i, localCrc =>
    (b[i]?).bind fun b0 => remainders b n (i + 1) (updateByte localCrc (toInt b0))

/-- `update(b, offset, len)`; neither argument is negative. -/
def update (b : Bytes) (offset len : ℕ) (crc : BitVec 32) : Option (BitVec 32) :=
  let remainder := len &&& 0x7
  (blocks b ((len - remainder) / 8) offset crc).bind fun r => remainders b remainder r.1 r.2

def reset : BitVec 32 := 0xFFFFFFFF

/-- `getValue`, as a `long`. -/
def getValue (crc : BitVec 32) : BitVec 64 := (~~~crc).signExtend 64 &&& 0xFFFFFFFF

/-- `UtilAll.crc32(array, offset, length)` -/
def crc32 (array : Bytes) (offset length : ℕ) : Option Int32 :=
  (update array offset length reset).map fun crc =>
    Int32.ofBitVec ((getValue crc &&& 0x7FFFFFFF).setWidth 32)

/-! ### What the tables hold -/

/-- The polynomial that the tables were made from. -/
def polynomial : BitVec 32 := 0xEDB88320

lemma crcByte_eq (c : BitVec 32) (b : UInt8) : crcByte c b = byte polynomial c b.toBitVec := rfl

/-- What is left of every byte with so many bytes behind it, itself not counted. -/
def IsTable (n : ℕ) (t : List ℕ) : Prop :=
  t = (List.range 256).map fun i => (shifts polynomial (8 * n) (BitVec.ofNat 32 i)).toNat

/-- A table, and the one with a byte more behind. -/
def Behind (t t' : List ℕ) : Prop := t' = t.map (shiftNat polynomial.toNat)^[8]

instance (t t' : List ℕ) : Decidable (Behind t t') := inferInstanceAs (Decidable (_ = _))

lemma isTable_range : IsTable 0 (List.range 256) := by
  refine (List.map_id _).symm.trans (List.map_congr_left fun i hi => ?_)
  have hlt := List.mem_range.mp hi
  rw [Nat.mul_zero, shifts_zero, BitVec.toNat_ofNat, Nat.mod_eq_of_lt (by omega), id]

lemma IsTable.behind {n : ℕ} {t t' : List ℕ} (h : IsTable n t) (hb : Behind t t') :
    IsTable (n + 1) t' := by
  rw [IsTable, hb, h, List.map_map]
  refine List.map_congr_left fun i _ => ?_
  rw [Function.comp_apply, ← toNat_shifts, ← shifts_add, Nat.mul_succ, Nat.add_comm 8]

/-- The tables that stand behind one. -/
lemma IsTable.flatten {n : ℕ} {t : List ℕ} {ts : List (List ℕ)} (h : IsTable n t)
    (hts : (t :: ts).IsChain Behind) :
    ts.flatten.map (BitVec.ofNat 32) = (List.range' n ts.length).flatMap fun k =>
      (List.range 256).map fun i => shifts polynomial (8 * (k + 1)) (BitVec.ofNat 32 i) := by
  induction ts generalizing n t with
  | nil => rfl
  | cons t' ts ih =>
    obtain ⟨hb, hts⟩ := List.isChain_cons_cons.mp hts
    have h' := h.behind hb
    rw [List.flatten_cons, List.map_append, List.length_cons, List.range'_succ,
      List.flatMap_cons, ih h' hts, h', List.map_map]
    simp only [Function.comp_def, BitVec.ofNat_toNat, BitVec.setWidth_eq]

lemma isChain_T8 :
    (List.range 256 :: [T8_0, T8_1, T8_2, T8_3, T8_4, T8_5, T8_6, T8_7]).IsChain Behind := by
  decide +kernel

/-- The tables stand one behind the other. -/
lemma T_eq : T = (List.range 8).flatMap fun k =>
    (List.range 256).map fun i => shifts polynomial (8 * (k + 1)) (BitVec.ofNat 32 i) := by
  rw [T, isTable_range.flatten isChain_T8, List.range_eq_range' (n := 8)]
  simp only [List.length_cons, List.length_nil]

/-- **A lookup.** The byte goes through the register, with so many bytes behind it. -/
lemma lookup_eq {k : ℕ} (hk : k < 8) (b : BitVec 8) {i : BitVec 32}
    (hi : i.toNat = 256 * k + b.toNat) :
    lookup i = shifts polynomial (8 * (k + 1)) (b.setWidth 32) := by
  have hb : BitVec.ofNat 32 b.toNat = b.setWidth 32 := BitVec.eq_of_toNat_eq (by simp)
  rw [lookup, hi, List.getD_eq_getElem?_getD, T_eq, getElem?_flatMap_range _ hk b.isLt,
    Option.getD_some, hb]

/-! ### The bytes that are cut out -/

/-- A byte at the top of an `int` and moved down. -/
lemma toNat_toInt_shift (b : UInt8) (n : ℕ) (hn : n ≤ 24) :
    ((toInt b <<< 24) >>> n).toNat = b.toNat * 2 ^ (24 - n) := by
  have htop : toInt b <<< 24 = b.toBitVec.setWidth 32 <<< 24 := by
    apply BitVec.eq_of_getLsbD_eq
    intro i hi
    rw [toInt, BitVec.getLsbD_shiftLeft, BitVec.getLsbD_shiftLeft, BitVec.getLsbD_signExtend,
      BitVec.getLsbD_setWidth]
    by_cases h24 : i < 24
    · simp [h24]
    · simp [h24, show i - 24 < 8 by omega]
  have hb := b.toBitVec.isLt
  have hsplit : 2 ^ 24 = 2 ^ (24 - n) * 2 ^ n := by rw [← Nat.pow_add, Nat.sub_add_cancel hn]
  rw [htop, BitVec.toNat_ushiftRight, BitVec.toNat_shiftLeft, BitVec.toNat_setWidth,
    Nat.mod_eq_of_lt (by omega), Nat.shiftLeft_eq, Nat.mod_eq_of_lt (by omega),
    Nat.shiftRight_eq_div_pow, hsplit, ← Nat.mul_assoc, Nat.mul_div_cancel _ (by positivity)]
  rfl

/-- A byte of an `int`. -/
lemma toNat_shift (x : BitVec 32) {n : ℕ} (hn : n ≤ 24) :
    ((x <<< n) >>> 24).toNat = ((x >>> (24 - n)).setWidth 8).toNat := by
  have hcut : (x <<< n) >>> 24 = ((x >>> (24 - n)).setWidth 8).setWidth 32 := by
    apply BitVec.eq_of_getLsbD_eq
    intro i hi
    rw [BitVec.getLsbD_ushiftRight, BitVec.getLsbD_shiftLeft, BitVec.getLsbD_setWidth,
      BitVec.getLsbD_setWidth, BitVec.getLsbD_ushiftRight]
    by_cases h8 : i < 8
    · simp [h8, hi, show 24 + i < 32 by omega, show ¬24 + i < n by omega,
        show 24 + i - n = 24 - n + i by omega]
    · simp [h8, show ¬24 + i < 32 by omega]
  have hlt := ((x >>> (24 - n)).setWidth 8).isLt
  rw [hcut, BitVec.toNat_setWidth, Nat.mod_eq_of_lt (by omega)]

/-- The four bytes that are added up are one word. -/
lemma word_eq (b0 b1 b2 b3 : UInt8) :
    (((toInt b0 <<< 24) >>> 24) + ((toInt b1 <<< 24) >>> 16)) +
        (((toInt b2 <<< 24) >>> 8) + (toInt b3 <<< 24)) =
      littleEndian 32 [b0.toBitVec, b1.toBitVec, b2.toBitVec, b3.toBitVec] := by
  have h3 : toInt b3 <<< 24 = (toInt b3 <<< 24) >>> 0 := (BitVec.ushiftRight_zero _).symm
  apply BitVec.eq_of_toNat_eq
  rw [(toNat_littleEndian (by simp)).2, h3]
  simp only [BitVec.toNat_add, toNat_toInt_shift, Nat.reduceLeDiff, Nat.zero_le,
    List.foldr_cons, List.foldr_nil]
  have h := b0.toBitVec.isLt
  have h' := b1.toBitVec.isLt
  have h'' := b2.toBitVec.isLt
  have h''' := b3.toBitVec.isLt
  simp only [UInt8.toNat_toBitVec] at *
  omega

/-! ### The checksum is that of the bytes -/

/-- One byte. -/
lemma updateByte_eq (c : BitVec 32) (b : UInt8) : updateByte c (toInt b) = crcByte c b := by
  rw [crcByte_eq, byte_eq_table, updateByte]
  congr 1
  have hlow : (c ^^^ toInt b).setWidth 8 = (c ^^^ b.toBitVec.setWidth 32).setWidth 8 := by
    apply BitVec.eq_of_getLsbD_eq
    intro i hi
    simp only [BitVec.getLsbD_setWidth, BitVec.getLsbD_xor, toInt, BitVec.getLsbD_signExtend]
    simp [hi, show i < 32 by omega]
  rw [lookup_eq (k := 0) (by norm_num) _ ((toNat_shift _ le_rfl).trans (Nat.zero_add _).symm)]
  simp [hlow]

/-- Four bytes that are put into the register at once. -/
lemma foldl_word (c : BitVec 32) (b0 b1 b2 b3 : UInt8) :
    [b0, b1, b2, b3].foldl crcByte c = shifts polynomial 32
      (c ^^^ littleEndian 32 [b0.toBitVec, b1.toBitVec, b2.toBitVec, b3.toBitVec]) := by
  have hlen : 8 * [b0.toBitVec, b1.toBitVec, b2.toBitVec, b3.toBitVec].length ≤ 32 := by simp
  exact foldl_byte polynomial hlen c

/-- The bytes of a word, each through the table of its place. -/
lemma shifts_word (n : ℕ) (b0 b1 b2 b3 : BitVec 8) :
    shifts polynomial (n + 32) (littleEndian 32 [b0, b1, b2, b3]) =
      (shifts polynomial (n + 32) (b0.setWidth 32) ^^^
        shifts polynomial (n + 24) (b1.setWidth 32)) ^^^
      (shifts polynomial (n + 16) (b2.setWidth 32) ^^^
        shifts polynomial (n + 8) (b3.setWidth 32)) := by
  have hlen : 8 * [b0, b1, b2, b3].length ≤ 32 := by simp
  have h := shifts_littleEndian polynomial hlen n
  simpa [List.range_succ, BitVec.xor_assoc] using h

/-- The first four bytes of a block, as its word is cut into bytes again. -/
lemma lookup_word (x : BitVec 32) :
    (lookup (((x <<< 24) >>> 24) + 0x700) ^^^ lookup (((x <<< 16) >>> 24) + 0x600)) ^^^
        (lookup (((x <<< 8) >>> 24) + 0x500) ^^^ lookup ((x >>> 24) + 0x400)) =
      shifts polynomial 64 x := by
  have h0 := toNat_shift x (n := 24) le_rfl
  have h1 := toNat_shift x (n := 16) (by norm_num)
  have h2 := toNat_shift x (n := 8) (by norm_num)
  have h3 := toNat_shift x (n := 0) (by norm_num)
  rw [BitVec.shiftLeft_zero] at h3
  have hadd : ∀ (i : BitVec 32) (b : BitVec 8) (k : BitVec 32), i.toNat = b.toNat →
      k.toNat ≤ 0x700 → (i + k).toNat = k.toNat + b.toNat := by
    intro i b k hi hk
    have hb := b.isLt
    rw [BitVec.toNat_add, hi, Nat.mod_eq_of_lt (by omega), Nat.add_comm]
  rw [lookup_eq (k := 7) (by norm_num) _ (hadd _ _ _ h0 (by decide)),
    lookup_eq (k := 6) (by norm_num) _ (hadd _ _ _ h1 (by decide)),
    lookup_eq (k := 5) (by norm_num) _ (hadd _ _ _ h2 (by decide)),
    lookup_eq (k := 4) (by norm_num) _ (hadd _ _ _ h3 (by decide))]
  conv_rhs => rw [← littleEndian_bytes (k := 4) le_rfl x]
  exact (shifts_word 32 _ _ _ _).symm

/-- The last four bytes. -/
lemma lookup_bytes (b4 b5 b6 b7 : UInt8) :
    (lookup (((toInt b4 <<< 24) >>> 24) + 0x300) ^^^
        lookup (((toInt b5 <<< 24) >>> 24) + 0x200)) ^^^
      (lookup (((toInt b6 <<< 24) >>> 24) + 0x100) ^^^ lookup ((toInt b7 <<< 24) >>> 24)) =
      shifts polynomial 32
        (littleEndian 32 [b4.toBitVec, b5.toBitVec, b6.toBitVec, b7.toBitVec]) := by
  have hbyte : ∀ b : UInt8, ((toInt b <<< 24) >>> 24).toNat = b.toBitVec.toNat := fun b =>
    (toNat_toInt_shift b 24 le_rfl).trans (Nat.mul_one _)
  have hadd : ∀ (b : UInt8) (k : BitVec 32), k.toNat ≤ 0x300 →
      (((toInt b <<< 24) >>> 24) + k).toNat = k.toNat + b.toBitVec.toNat := by
    intro b k hk
    have hb := b.toBitVec.isLt
    rw [BitVec.toNat_add, hbyte, Nat.mod_eq_of_lt (by omega), Nat.add_comm]
  rw [lookup_eq (k := 3) (by norm_num) _ (hadd b4 _ (by decide)),
    lookup_eq (k := 2) (by norm_num) _ (hadd b5 _ (by decide)),
    lookup_eq (k := 1) (by norm_num) _ (hadd b6 _ (by decide)),
    lookup_eq (k := 0) (by norm_num) _ ((hbyte b7).trans (Nat.zero_add _).symm)]
  exact (shifts_word 0 _ _ _ _).symm

/-- A block of eight bytes. -/
lemma block_eq {b rest : Bytes} {i : ℕ} {b0 b1 b2 b3 b4 b5 b6 b7 : UInt8}
    (h : b.drop i = b0 :: b1 :: b2 :: b3 :: b4 :: b5 :: b6 :: b7 :: rest) (c : BitVec 32) :
    block b i c = some ([b0, b1, b2, b3, b4, b5, b6, b7].foldl crcByte c) := by
  have hget : ∀ j, b[i + j]? = (b.drop i)[j]? := fun j => List.getElem?_drop.symm
  have hget0 := hget 0
  rw [Nat.add_zero] at hget0
  simp only [block, hget0, hget, h, List.getElem?_cons_zero, List.getElem?_cons_succ,
    Option.bind_eq_bind, Option.bind_some, Option.pure_def, Option.some.injEq]
  rw [word_eq, lookup_word, lookup_bytes,
    show [b0, b1, b2, b3, b4, b5, b6, b7] = [b0, b1, b2, b3] ++ [b4, b5, b6, b7] from rfl,
    List.foldl_append, foldl_word, foldl_word, shifts_xor polynomial 32, ← shifts_add]

lemma block_eq_none {b : Bytes} {i : ℕ} (h : b.length < i + 8) (c : BitVec 32) :
    block b i c = none := by
  have hlast : b[i + 7]? = none := List.getElem?_eq_none (by omega)
  simp only [block, hlast, Option.bind_eq_bind, Option.bind_none, Option.bind_fun_none]

/-- The rounds of the loop. -/
lemma blocks_eq {b : Bytes} {n i : ℕ} (h : i + 8 * n ≤ b.length) (c : BitVec 32) :
    blocks b n i c = some (i + 8 * n, ((b.drop i).take (8 * n)).foldl crcByte c) := by
  induction n generalizing i c with
  | zero => rfl
  | succ n ih =>
    obtain ⟨b0, b1, b2, b3, b4, b5, b6, b7, rest, hdrop⟩ : ∃ b0 b1 b2 b3 b4 b5 b6 b7 rest,
        b.drop i = b0 :: b1 :: b2 :: b3 :: b4 :: b5 :: b6 :: b7 :: rest := by
      have hlen : 8 ≤ (b.drop i).length := by
        rw [List.length_drop]
        omega
      match hd : b.drop i, hlen with
      | b0 :: b1 :: b2 :: b3 :: b4 :: b5 :: b6 :: b7 :: rest, _ =>
        exact ⟨b0, b1, b2, b3, b4, b5, b6, b7, rest, rfl⟩
    have hrest : b.drop (i + 8) = rest := by
      rw [← List.drop_drop, hdrop]
      rfl
    rw [blocks, block_eq hdrop, Option.bind_some, ih (by omega), hrest, hdrop, Nat.mul_succ,
      show i + 8 + 8 * n = i + (8 * n + 8) by omega]
    simp only [List.take_succ_cons, List.foldl_cons, List.foldl_nil]

lemma blocks_eq_none {b : Bytes} {n i : ℕ} (hn : 0 < n) (h : b.length < i + 8 * n)
    (c : BitVec 32) : blocks b n i c = none := by
  induction n generalizing i c with
  | zero => exact absurd hn (Nat.lt_irrefl 0)
  | succ n ih =>
    rw [blocks]
    by_cases hfirst : b.length < i + 8
    · rw [block_eq_none hfirst, Option.bind_none]
    · cases hb : block b i c with
      | none => rfl
      | some c' => exact ih (by omega) (by omega) c'

/-- The bytes that are left. -/
lemma remainders_eq {b : Bytes} {n i : ℕ} (h : i + n ≤ b.length) (c : BitVec 32) :
    remainders b n i c = some (((b.drop i).take n).foldl crcByte c) := by
  induction n generalizing i c with
  | zero => rfl
  | succ n ih =>
    have hi : i < b.length := by omega
    rw [remainders, List.getElem?_eq_getElem hi, Option.bind_some, updateByte_eq, ih (by omega),
      List.drop_eq_getElem_cons hi, List.take_succ_cons, List.foldl_cons]

lemma remainders_eq_none {b : Bytes} {n i : ℕ} (hn : 0 < n) (h : b.length < i + n)
    (c : BitVec 32) : remainders b n i c = none := by
  induction n generalizing i c with
  | zero => exact absurd hn (Nat.lt_irrefl 0)
  | succ n ih =>
    rw [remainders]
    by_cases hi : i < b.length
    · rw [List.getElem?_eq_getElem hi, Option.bind_some]
      exact ih (by omega) (by omega) _
    · rw [List.getElem?_eq_none (Nat.le_of_not_lt hi), Option.bind_none]

/-- The whole call; a range that is not in the array throws. -/
lemma update_eq (b : Bytes) (offset len : ℕ) (crc : BitVec 32) :
    update b offset len crc =
      if offset + len ≤ b.length ∨ len = 0 then
        some (((b.drop offset).take len).foldl crcByte crc)
      else none := by
  have hmod : len &&& 0x7 = len % 8 := Nat.and_two_pow_sub_one_eq_mod len 3
  have hdiv := Nat.div_add_mod len 8
  have hrounds : (len - len % 8) / 8 = len / 8 := by omega
  rw [update]
  simp only [hmod, hrounds]
  by_cases hin : offset + len ≤ b.length
  · have hsplit : (b.drop offset).take len = (b.drop offset).take (8 * (len / 8)) ++
        (b.drop (offset + 8 * (len / 8))).take (len % 8) := by
      rw [← List.drop_drop, ← List.take_add, hdiv]
    rw [blocks_eq (by omega), Option.bind_some, remainders_eq (by omega), if_pos (.inl hin), hsplit,
      List.foldl_append]
  · by_cases hzero : len = 0
    · subst hzero
      simp [blocks, remainders]
    rw [if_neg (not_or.mpr ⟨hin, hzero⟩)]
    by_cases hfew : len / 8 = 0
    · rw [hfew, blocks, Option.bind_some, remainders_eq_none (by omega) (by omega)]
    by_cases hblocks : offset + 8 * (len / 8) ≤ b.length
    · rw [blocks_eq hblocks, Option.bind_some, remainders_eq_none (by omega) (by omega)]
    · rw [blocks_eq_none (by omega) (by omega), Option.bind_none]

example : crc32 [0x31, 0x32, 0x33, 0x34, 0x35, 0x36, 0x37, 0x38, 0x39] 0 9 = some 0x4BF43926 := by
  decide +kernel

end CloudMQ.PureJavaCrc32

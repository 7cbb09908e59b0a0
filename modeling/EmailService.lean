import EmailService.CrashSafety
import EmailService.Completed
import EmailService.DmarcEnforcement
import EmailService.Domains
import EmailService.DmarcDiscovery
import EmailService.CheckHost
import EmailService.Accounts
import EmailService.TlsReports
import EmailService.Arc
import EmailService.Greylisting
import EmailService.Mailstorm
import EmailService.VolumePaths
import EmailService.MailRouting
import EmailService.BackupRestore
import EmailService.DnsSharing
import EmailService.Webhooks
import EmailService.DmarcReports
import EmailService.RetryOrder
import EmailService.Routes
import EmailService.HeaderRemoval
import EmailService.AuditChain
import EmailService.Custody
import EmailService.Throttle
import EmailService.ObjectChanges
import EmailService.Recipients
import EmailService.SearchSets
import EmailService.StsHistory
import EmailService.PolicySight
import EmailService.MimeLines
import EmailService.PreMailProxy
